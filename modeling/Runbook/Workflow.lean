import Runbook.Step
import Runbook.Text.Lower

/-! Workflows: a sequence or a graph of steps. In a sequence steps are addressed by index and the
next step is implicit; in a graph they are addressed by id and transitions lead on. -/
namespace Runbook

structure Workflow where
  id : String
  title : String
  isGraph : Bool
  startId : Option String
  steps : List Step
  deriving Inhabited

/-- Where a run stands: at an index or an id, at no step, or at a marker of another kind, which a
caller may set and which addresses no step. -/
inductive Position where
  | index (n : Int)
  | node (id : String)
  | nowhere
  | foreign (v : Value)
  deriving Inhabited

namespace Position

def ofValue : Value → Position
  | .whole n => .index n
  | .text s => .node s
  | .null => .nowhere
  | v => .foreign v

def toValue : Position → Value
  | .index n => .whole n
  | .node s => .text s
  | .nowhere => .null
  | .foreign v => v

end Position

namespace Workflow

def stepById? (w : Workflow) (id : String) : Option Step :=
  if id.isEmpty then none else w.steps.find? (·.id == id)

/-- The first step with exactly that title, else the first whose title differs in case only. -/
def stepByTitle? (w : Workflow) (title : String) : Option Step :=
  if title.isEmpty then none
  else match w.steps.find? (·.title == title) with
    | some s => some s
    | none => w.steps.find? fun s => Text.lower s.title == Text.lower title

/-- The step a reference names: by id first, then by title. -/
def resolve? (w : Workflow) (reference : String) : Option Step :=
  match w.stepById? reference with
  | some s => some s
  | none => w.stepByTitle? reference

def indexOf? (w : Workflow) (id : String) : Option Nat := w.steps.findIdx? (·.id == id)

/-- The steps with distinct ids, the first of each id. -/
def nodes (w : Workflow) : List Step :=
  w.steps.foldl (fun kept s => if kept.any (·.id == s.id) then kept else kept ++ [s]) []

def node? (w : Workflow) (id : String) : Option Step := w.steps.find? (·.id == id)

/-- The designated start step if it exists, else the first step. -/
def start? (w : Workflow) : Option Step :=
  match w.startId.bind w.stepById? with
  | some s => some s
  | none => w.steps.head?

def startPosition (w : Workflow) : Position :=
  if w.isGraph then
    match w.start? with
    | some s => .node s.id
    | none => .nowhere
  else .index 0

/-- The position past the last step. -/
def endPosition (w : Workflow) : Position :=
  if w.isGraph then .nowhere else .index w.steps.length

def stepAt? (w : Workflow) : Position → Option Step
  | .index n => if w.isGraph || n < 0 then none else w.steps[n.toNat]?
  | .node id => if w.isGraph then w.stepById? id else none
  | _ => none

def positionOf (w : Workflow) (s : Step) : Position :=
  if w.isGraph then .node s.id
  else match w.indexOf? s.id with
    | some i => .index i
    | none => .nowhere

def isPastEnd (w : Workflow) : Position → Bool
  | .nowhere => true
  | .index n => !w.isGraph && w.steps.length ≤ n
  | .foreign (.flag b) => !w.isGraph && w.steps.length ≤ (if b then 1 else 0)
  | _ => !w.isGraph

/-- Ends a run: a resolution; in a graph a step with no transitions, in a sequence the last step. -/
def isTerminal (w : Workflow) (s : Step) : Bool :=
  s.isResolve ||
    (if w.isGraph then s.transitions.isEmpty
      else match w.steps.getLast? with
        | some last => last.id == s.id
        | none => false)

def terminals (w : Workflow) : List Step := w.steps.filter w.isTerminal

def transitionsFrom (w : Workflow) (id : String) : List Transition :=
  match w.stepById? id with
  | some s => s.transitions
  | none => []

/-- The steps with a transition to the given target; null asks for transitions without one. -/
def stepsLeadingTo (w : Workflow) (target : Option String) : List Step :=
  w.steps.filter fun s => s.transitions.any (·.target == target)

/-- The ids that the transitions out of a step name. -/
def nextIds (w : Workflow) (id : String) : List String :=
  ((w.transitionsFrom id).filterMap (·.target)).filter (!·.isEmpty)

/-- Names of variables that answers and actions write, each once. -/
def variableNames (w : Workflow) : List String :=
  (w.steps.flatMap fun s =>
    match s.body with
    | .question q => q.variableName.toList.filter (!·.isEmpty)
    | .action a => a.outputs.map (·.name)
    | _ => []).eraseDups

def referencedWorkflows (w : Workflow) : List String :=
  (w.steps.filterMap fun s =>
    match s.body with
    | .subFlow f => f.target
    | _ => none).filter (!·.isEmpty) |>.eraseDups

end Workflow
end Runbook
