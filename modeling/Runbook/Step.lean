import Runbook.Value

/-! Steps: the typed nodes of a workflow, and the edges between them. -/
namespace Runbook

/-- An outgoing edge in graph mode; without a condition it is a default edge. -/
structure Transition where
  target : Option String
  condition : Option String
  label : Option String
  deriving DecidableEq, Inhabited

def Transition.isDefault (t : Transition) : Bool := t.condition.isNone

/-- A conditional way out of a decision. -/
structure Branch where
  condition : Option String
  target : Option String
  deriving DecidableEq, Inhabited

/-- An edge that is tried before any other routing. -/
structure Jump where
  condition : Option String
  target : Option String
  deriving DecidableEq, Inhabited

/-- A variable that an action derives from a template. -/
structure OutputField where
  name : String
  template : String
  deriving DecidableEq, Inhabited

structure Question where
  question : Option String
  variableName : Option String
  answerType : String
  options : List Value
  deriving Inhabited

/-- The two spellings of a decision's type behave alike. -/
structure Decision where
  simple : Bool
  branches : List Branch
  elseTarget : Option String
  deriving DecidableEq, Inhabited

structure Action where
  instructions : Option String
  outputs : List OutputField
  deriving DecidableEq, Inhabited

structure SubFlow where
  target : Option String
  mapping : List (String × String)
  deriving DecidableEq, Inhabited

structure Escalation where
  targetType : Option String
  targetValue : Option String
  priority : Option String
  reasonRequired : Bool
  notes : Option String
  deriving DecidableEq, Inhabited

structure Resolution where
  resolutionType : Option String
  code : Option String
  notesRequired : Bool
  surveyTrigger : Bool
  deriving DecidableEq, Inhabited

inductive Body where
  | question (q : Question)
  | decision (d : Decision)
  | action (a : Action)
  | checkpoint (message : Option String)
  | subFlow (f : SubFlow)
  | message (content : Option String)
  | escalate (e : Escalation)
  | resolve (r : Resolution)
  deriving Inhabited

structure Step where
  id : String
  title : String
  description : Option String
  jumps : List Jump
  transitions : List Transition
  body : Body
  /-- Fields of the definition that the step's type does not know. -/
  extras : Fields
  deriving Inhabited

def Body.kind : Body → String
  | .question _ => "question"
  | .decision d => if d.simple then "simple_decision" else "decision"
  | .action _ => "action"
  | .checkpoint _ => "checkpoint"
  | .subFlow _ => "sub_flow"
  | .message _ => "message"
  | .escalate _ => "escalate"
  | .resolve _ => "resolve"

namespace Step

def kind (s : Step) : String := s.body.kind

def isCheckpoint (s : Step) : Bool :=
  match s.body with
  | .checkpoint _ => true
  | _ => false

def isResolve (s : Step) : Bool :=
  match s.body with
  | .resolve _ => true
  | _ => false

def hasDefaultTransition (s : Step) : Bool := s.transitions.any (·.isDefault)

/-- The title, or the id of a step without one. -/
def label (s : Step) : String := if s.title.isEmpty then s.id else s.title

/-- The variable name as a value: that of a question, or an extra field of that name. -/
def variableName (s : Step) : Value :=
  match s.body with
  | .question q => .ofText? q.variableName
  | _ => (s.extras.get? "variable_name").getD .null

end Step
end Runbook
