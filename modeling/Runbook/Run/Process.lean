import Runbook.Route
import Runbook.Run
import Runbook.Template

/-! Processing one step: it writes answers and derived values into the results, picks the next
position and appends one entry to the trail. A failure leaves the writes made before it. -/
namespace Runbook

inductive Outcome where
  | advanced (position : Position)
  | blocked (position : Position) (reason : String)
  | rejected (position : Position) (reason : String)
  deriving Inhabited

namespace Outcome

def kind : Outcome → String
  | .advanced _ => "advanced"
  | .blocked .. => "blocked"
  | .rejected .. => "rejected"

def position : Outcome → Position
  | .advanced p | .blocked p _ | .rejected p _ => p

def reason? : Outcome → Option String
  | .advanced _ => none
  | .blocked _ r | .rejected _ r => some r

def isAdvanced : Outcome → Bool
  | .advanced _ => true
  | _ => false

end Outcome

/-- The results and inputs after an answer. A blank answer leaves both alone. -/
def Question.record (q : Question) (title : String) (position : Position) (answer : Value)
    (results inputs : Store) : Store × Store :=
  if answer.present then
    let name := q.variableName.getD ""
    ((results.record name answer).record title answer,
      ((inputs.put (.text position.toValue.display) answer).record name answer).record title answer)
  else (results, inputs)

/-- The results after an action: each output sees those before it. -/
def Action.apply (a : Action) (title : String) (results : Store) : Store :=
  a.outputs.foldl (fun rs o => rs.put (.text o.name) (.text (Template.fill rs o.template)))
    (results.record title (.text "Action executed"))

def Fields.ofSet (fields : List (String × Value)) : Value :=
  .record (fields.filter fun (_, v) => !v.isNull)

/-- The record that is kept of an escalation. -/
def Escalation.toRecord (e : Escalation) : Value :=
  Fields.ofSet
    [("type", .ofText? e.targetType), ("value", .ofText? e.targetValue),
      ("priority", .text ((e.priority.filter (!·.isEmpty)).getD "normal")),
      ("reason_required", .flag e.reasonRequired), ("notes", .ofText? e.notes)]

/-- The record that is kept of a resolution. -/
def Resolution.toRecord (r : Resolution) : Value :=
  Fields.ofSet
    [("type", .text ((r.resolutionType.filter (!·.isEmpty)).getD "success")),
      ("code", .ofText? r.code), ("notes_required", .flag r.notesRequired),
      ("survey_trigger", .flag r.surveyTrigger)]

def escalationKey : Key := .text "_escalation"

def resolutionKey : Key := .text "_resolution"

def Escalation.apply (e : Escalation) (title : String) (results : Store) : Store :=
  (results.record title (.text "Escalated")).put escalationKey e.toRecord

def Resolution.apply (r : Resolution) (title : String) (results : Store) : Store :=
  (results.record title (.text "Issue resolved")).put resolutionKey r.toRecord

/-- The position as the trail records it. -/
def Position.recorded (p : Position) : Except Failure Position :=
  ((Position.read p.toValue).under (.field "position")).toExcept "ExecutionEntry"

namespace Workflow

/-- The stores after the step's own writes. -/
def writes (s : Step) (r : Run) (answer : Value) : Run :=
  match s.body with
  | .question q =>
    let (results, inputs) := q.record s.title r.position answer r.results r.inputs
    { r with results, inputs }
  | .action a => { r with results := a.apply s.title r.results }
  | .message _ => { r with results := r.results.record s.title (.text "Message displayed") }
  | .escalate e => { r with results := e.apply s.title r.results }
  | .resolve x => { r with results := x.apply s.title r.results }
  | _ => r

/-- The trail entry of a step, before routing; `results` are those after its writes. -/
def entryOf (now : Instant) (s : Step) (position : Position) (results : Store) (answer : Value) :
    Entry :=
  let e := Entry.of now position s
  match s.body with
  | .question _ => { e with answer }
  | .action _ => { e with notes := some "action completed" }
  | .subFlow f => { e with subFlow := f.target }
  | .message content => { e with content := some (Template.fill results (content.getD "")) }
  | .escalate x => { e with escalated := some true, notes := x.notes }
  | .resolve _ => { e with resolved := some true }
  | _ => e

/-- Adds the reason of the route; only a decision records the branch. -/
def Entry.routed (e : Entry) (s : Step) (route : Route) : Entry :=
  match s.body with
  | .decision _ => { e with reason := route.reason, branch := route.branch }
  | _ => { e with reason := route.reason.filter (!·.isEmpty) }

def overflowed {α : Type} : Except Overflow α → Except Failure α
  | .ok a => .ok a
  | .error _ => .error .tooLarge

/-- Routes on from a step whose writes are done, and appends its entry. -/
def advance (w : Workflow) (strategy : Strategy) (now : Instant) (s : Step) (r : Run)
    (answer : Value) : Except Failure Run := do
  let route ← overflowed (w.nextRoute strategy s r.results)
  let position ← r.position.recorded
  let e := Entry.routed (entryOf now s position r.results answer) s route
  pure ((r.append e).move w route.position)

/-- Ends the run at a resolution whose writes are done. -/
def conclude (w : Workflow) (now : Instant) (s : Step) (r : Run) : Except Failure Run := do
  let position ← r.position.recorded
  pure ((r.append (entryOf now s position r.results .null)).finish w)

/-- Processes a step, whether or not the run stands there, and gives the run as it is left. The
entry bears the time of the call. -/
def process (w : Workflow) (now : Instant) (r : Run) (s : Step) (answer : Value) :
    Run × Except Failure Outcome :=
  if r.isFinal then (r, .ok (.rejected r.position ("simulation is " ++ r.status.name)))
  else if s.isCheckpoint then (r, .ok (.blocked r.position "checkpoint awaiting resolution"))
  else
    let written := writes s r answer
    let next := if s.isResolve then w.conclude now s written
      else w.advance w.strategy now s written answer
    match next with
    | .ok r' => (r', .ok (.advanced r'.position))
    | .error e => (written, .error e)

/-- The entry of a checkpoint that has been answered, with the answer read as a flag. Notes that
count as false are left out. -/
def checkpointEntry (now : Instant) (s : Step) (position : Position) (resolved notes : Value) :
    Reading Entry := do
  let notes := if notes.truthy then notes else .null
  let resolved ← (Reading.optional Reading.flag resolved).under (.field "resolved")
  let notes ← (Reading.optionalText notes).under (.field "notes")
  pure { Entry.of now position s with resolved, notes }

/-- Answers the checkpoint where the run stands: an answer that counts as true ends the run, any
other lets it go on. Words such as `no` count as true, too, whatever the trail reads in them. -/
def answerCheckpoint (w : Workflow) (now : Instant) (r : Run) (resolved notes : Value) :
    Run × Except Failure Outcome :=
  if r.isFinal then (r, .ok (.rejected r.position ("simulation is " ++ r.status.name)))
  else match (w.stepAt? r.position).filter (·.isCheckpoint) with
    | none => (r, .ok (.rejected r.position "current step is not a checkpoint"))
    | some s =>
      match (checkpointEntry now s r.position resolved notes).toExcept "ExecutionEntry" with
      | .error e => (r, .error e)
      | .ok entry =>
        let r := r.append entry
        if resolved.truthy then
          let text := Value.text "Issue resolved - workflow completed"
          let r := { r with results := r.results.record s.title text }.finish w
          (r, .ok (.advanced r.position))
        else
          let text := Value.text "Issue not resolved - continuing workflow"
          let r := { r with results := r.results.record s.title text }
          match overflowed (w.fallback w.strategy s r.results) with
          | .ok route =>
            let r := r.move w route.position
            (r, .ok (.advanced r.position))
          | .error e => (r, .error e)

end Workflow
end Runbook
