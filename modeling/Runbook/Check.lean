import Runbook.Check.Graph
import Runbook.Check.Size
import Runbook.Condition
import Runbook.Route

/-! Checks of a definition, for its author: texts that are no conditions, references to steps that
do not exist, limits that are passed, and the structure of a graph. A run needs none of them. -/
namespace Runbook.Check

def escalationTargets : List String :=
  ["team", "queue", "supervisor", "channel", "department", "ticket"]

def escalationPriorities : List String :=
  ["low", "medium", "normal", "high", "urgent", "critical"]

def resolutionTypes : List String :=
  ["success", "failure", "cancelled", "escalated", "transferred", "other", "transfer", "ticket",
    "manager_escalation"]

/-- A problem if the text is given and not one of the list. -/
def unlisted (problem : String) (known : List String) (given : Option String) : List String :=
  match given.filter (!·.isEmpty) with
  | some t => if known.contains t then [] else [problem ++ " '" ++ t ++ "'"]
  | none => []

def supportProblems (w : Workflow) (number : Nat) (s : Step) : List String :=
  match s.body with
  | .escalate e =>
    unlisted (stepHead number ++ ": Invalid escalation target type") escalationTargets
      e.targetType ++
    unlisted (stepHead number ++ ": Invalid escalation priority") escalationPriorities
      e.priority
  | .resolve r =>
    unlisted (stepHead number ++ ": Invalid resolution type") resolutionTypes
      r.resolutionType ++
    (if w.isGraph && !s.transitions.isEmpty then
      [stepHead number ++ ": Resolve steps cannot have outgoing transitions"] else [])
  | _ => []

/-- A reference that names no step. -/
def dangling? (w : Workflow) (reference : Option String) : Option String :=
  reference.filter fun r => !r.isEmpty && (w.resolve? r).isNone

/-- Texts that are missing or empty count as not given. -/
def given? (s : Option String) : Option String := s.filter (!·.isEmpty)

def branchProblems (w : Workflow) (number : Nat) (b : Branch) (n : Nat) : List String :=
  let start := stepHead number ++ ", Branch " ++ toString n
  let condition := given? b.condition
  (if (given? b.target).isSome && condition.isNone then
    [start ++ ": Condition is required when a path is selected"] else []) ++
  (if condition.any (!Condition.isValid ·) then [start ++ ": Invalid condition format"] else []) ++
  ((dangling? w b.target).map (start ++ ": References non-existent step: " ++ ·)).toList

def decisionProblems (w : Workflow) (number : Nat) (d : Decision) : List String :=
  (d.branches.zipIdx 1).flatMap (fun (b, n) => branchProblems w number b n) ++
  ((dangling? w d.elseTarget).map fun r =>
    stepHead number ++ ": 'Else' path references non-existent step: " ++ r).toList

/-- Whether a jump condition stands for itself and needs no form. -/
def isLiteralJump (s : Step) (condition : String) : Bool :=
  match s.body with
  | .question _ => true
  | .action _ => condition == actionCompleted
  | _ => false

def jumpProblems (w : Workflow) (number : Nat) (s : Step) (j : Jump) (n : Nat) : List String :=
  let start := stepHead number ++ ", Jump " ++ toString n
  match given? j.condition, given? j.target with
  | some condition, some target =>
    (if !isLiteralJump s condition && !Condition.isValid condition then
      [start ++ ": Invalid condition format"] else []) ++
    ((dangling? w (some target)).map (start ++ ": References non-existent step: " ++ ·)).toList
  | _, _ => [start ++ ": Condition and target are both required"]

def subFlowProblems (w : Workflow) (number : Nat) (f : SubFlow) : List String :=
  (if w.isGraph then [] else [stepHead number ++ ": Sub-flow steps require graph mode"]) ++
  (if (given? f.target).isNone then
    [stepHead number ++ ": Sub-flow target workflow is required"] else [])

def transitionProblems (w : Workflow) (number : Nat) (s : Step) : List String :=
  if w.isGraph then
    (s.transitions.zipIdx 1).filterMap fun (t, n) =>
      if (given? t.condition).any (!Condition.isValid ·) then
        some (stepHead number ++ ", Transition " ++ toString n ++ ": Invalid condition format")
      else none
  else []

def stepProblems (w : Workflow) (l : Limits) (s : Step) (number : Nat) : List String :=
  (if s.title.isEmpty then [stepHead number ++ ": Title is required"] else []) ++
  stepSizeProblems number s l ++ supportProblems w number s ++
  (match s.body with
    | .decision d => decisionProblems w number d
    | _ => []) ++
  (s.jumps.zipIdx 1).flatMap (fun (j, n) => jumpProblems w number s j n) ++
  (match s.body with
    | .subFlow f => subFlowProblems w number f
    | _ => []) ++
  transitionProblems w number s

/-- The ids that more than one step has, each once. -/
def repeatedIds (w : Workflow) : List String :=
  (nodeIds w).filter fun id => 1 < w.steps.countP (·.id == id)

end Check

/-- All problems of a definition, none if it is sound. One that passes the limits on its whole size
has that problem only; where the size cannot be told, the check fails. -/
def Workflow.problems (w : Workflow) (allowCycles : Bool) (l : Limits) :
    Except Failure (List String) :=
  if w.steps.isEmpty then .ok ["Workflow has no steps"]
  else match Check.sizeProblem? w l with
    | .error e => .error e
    | .ok (some problem) => .ok [problem]
    | .ok none =>
      .ok <| (Check.repeatedIds w).map (fun id => "Duplicate step id '" ++ id ++ "'") ++
      (w.steps.zipIdx 1).flatMap (fun (s, n) => Check.stepProblems w l s n) ++
      (if w.isGraph then Check.graphProblems w allowCycles else [])

end Runbook
