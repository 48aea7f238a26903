import Runbook.Definition.Decision
import Runbook.Reading
import Runbook.Step

/-! Reading steps from raw definitions. -/
namespace Runbook.Definition
open Reading

def readTransition : Value → Reading Transition :=
  model .data "Transition" fun f => do
    let target ← field f ["target_id", "target_uuid", "target"] (pure none) reference
    let condition ← field f ["condition"] (pure none) trimmedText
    let label ← field f ["label"] (pure none) optionalText
    pure ⟨target, condition, label⟩

def readBranch : Value → Reading Branch :=
  model .data "Branch" fun f => do
    let condition ← field f ["condition"] (pure none) trimmedText
    let target ← field f ["target", "path"] (pure none) reference
    pure ⟨condition, target⟩

def readJump : Value → Reading Jump :=
  model .data "Jump" fun f => do
    let condition ← field f ["condition"] (pure none) trimmedText
    let target ← field f ["target", "next_step_id"] (pure none) reference
    pure ⟨condition, target⟩

/-- Null stands for the empty text. -/
def textOrEmpty : Value → Reading String
  | .null => pure ""
  | v => text v

def readOutput : Value → Reading OutputField :=
  model .data "OutputField" fun f => do
    let name ← required f "name" text
    let template ← field f ["value_template", "value"] (pure "") textOrEmpty
    pure ⟨name, template⟩

/-- An output record without a name is left out before reading. -/
def isNamed : Value → Bool
  | .record fields => (Fields.get fields "name").trimmed.truthy
  | _ => true

def readOutputs : Value → Reading (List OutputField)
  | .list items => list .data readOutput (.list (items.filter isNamed))
  | v => list .data readOutput v

inductive StepType where
  | question
  | decision (simple : Bool)
  | action
  | checkpoint
  | subFlow
  | message
  | escalate
  | resolve
  deriving DecidableEq, Inhabited

def StepType.ofText? : String → Option StepType
  | "question" => some .question
  | "decision" => some (.decision false)
  | "simple_decision" => some (.decision true)
  | "action" => some .action
  | "checkpoint" => some .checkpoint
  | "sub_flow" => some .subFlow
  | "message" => some .message
  | "escalate" => some .escalate
  | "resolve" => some .resolve
  | _ => none

def elseNames : List String := ["else_target", "else_path"]

def messageNames : List String := ["message", "checkpoint_message"]

def readBody (f : Fields) : StepType → Reading Body
  | .question => do
    let question ← field f ["question"] (pure none) optionalText
    let variableName ← field f ["variable_name"] (pure none) trimmedText
    let answerType ← field f ["answer_type"] (pure "text") text
    let options ← field f ["options"] (pure []) (list .data pure)
    pure (.question ⟨question, variableName, answerType, options⟩)
  | .decision simple => do
    let branches ← field f ["branches"] (pure []) (list .data readBranch)
    let elseTarget ← field f elseNames (pure none) reference
    pure (.decision ⟨simple, branches, elseTarget⟩)
  | .action => do
    let instructions ← field f ["instructions"] (pure none) optionalText
    let outputs ← field f ["output_fields"] (pure []) readOutputs
    pure (.action ⟨instructions, outputs⟩)
  | .checkpoint => do
    let message ← field f messageNames (pure none) optionalText
    pure (.checkpoint message)
  | .subFlow => do
    let target ← field f ["target_workflow_id"] (pure none) reference
    let mapping ← field f ["variable_mapping"] (pure []) (mapping .data text)
    pure (.subFlow ⟨target, mapping⟩)
  | .message => do
    let content ← field f ["content"] (pure none) optionalText
    pure (.message content)
  | .escalate => do
    let targetType ← field f ["target_type"] (pure none) trimmedText
    let targetValue ← field f ["target_value"] (pure none) optionalText
    let priority ← field f ["priority"] (pure none) trimmedText
    let reasonRequired ← field f ["reason_required"] (pure false) flag
    let notes ← field f ["notes"] (pure none) optionalText
    pure (.escalate ⟨targetType, targetValue, priority, reasonRequired, notes⟩)
  | .resolve => do
    let resolutionType ← field f ["resolution_type"] (pure none) trimmedText
    let code ← field f ["resolution_code"] (pure none) optionalText
    let notesRequired ← field f ["notes_required"] (pure false) flag
    let surveyTrigger ← field f ["survey_trigger"] (pure false) flag
    pure (.resolve ⟨resolutionType, code, notesRequired, surveyTrigger⟩)

/-- The fields a step type knows, each as the list of names it may have. -/
def bodyNames : StepType → List (List String)
  | .question => [["question"], ["variable_name"], ["answer_type"], ["options"]]
  | .decision _ => [["branches"], elseNames]
  | .action => [["instructions"], ["output_fields"]]
  | .checkpoint => [messageNames]
  | .subFlow => [["target_workflow_id"], ["variable_mapping"]]
  | .message => [["content"]]
  | .escalate =>
    [["target_type"], ["target_value"], ["priority"], ["reason_required"], ["notes"]]
  | .resolve =>
    [["resolution_type"], ["resolution_code"], ["notes_required"], ["survey_trigger"]]

def baseNames : List (List String) :=
  [["id"], ["title"], ["description"], ["jumps"], ["transitions"], ["type"]]

/-- The fields left over: of two names for one field, the one that was not used stays. -/
def extraFields (f : Fields) (type : StepType) : Fields :=
  f.without ((baseNames ++ bodyNames type).filterMap (used? f))

/-- The id that a raw step states, if any. -/
def statedId? (f : Fields) : Option String := (f.get? "id").bind reference?

/-- Reads a step of a known type; `fresh` is its id if it states none. -/
def readTyped (fresh : String) (type : StepType) (given : Fields) : Reading Step := do
  let f := match type with
    | .decision _ => Decision.canonical given
    | _ => given
  let title ← field f ["title"] (pure "") textOrEmpty
  let description ← field f ["description"] (pure none) optionalText
  let jumps ← field f ["jumps"] (pure []) (list .data readJump)
  let transitions ← field f ["transitions"] (pure []) (list .data readTransition)
  let body ← readBody f type
  pure ⟨(statedId? f).getD fresh, title, description, jumps, transitions, body, extraFields f type⟩

/-- The type tag of a raw step, or the fault that it has none that is known. -/
def typeOf (f : Fields) : Except Fault.Cause StepType :=
  match f.get? "type" with
  | none => .error .noType
  | some (.text s) =>
    match StepType.ofText? s with
    | some t => .ok t
    | none => .error (.unknownType s)
  | some v => .error (.unknownType v.display)

def readStep (fresh : String) : Value → Reading Step
  | .record f =>
    match typeOf f with
    | .error cause => fault cause
    | .ok type =>
      (readTyped fresh type f).under (.field (Fields.get f "type").display)
  | _ => fault .notStep

end Runbook.Definition
