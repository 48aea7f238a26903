import Runbook.Condition.Evaluate
import Runbook.Workflow

/-! Routing: which position follows a step. Jumps come first, then the branches and the else target
of a decision, then the fallback of the addressing strategy. -/
namespace Runbook

/-- A sequence falls back to the next index, a graph to the step's transitions. -/
inductive Strategy where
  | linear
  | graph
  deriving DecidableEq, Inhabited

def Workflow.strategy (w : Workflow) : Strategy := if w.isGraph then .graph else .linear

structure Route where
  position : Position
  reason : Option String
  branch : Option String
  deriving Inhabited

/-- The jump condition that holds after every action. -/
def actionCompleted : String := "completed"

/-- The recorded answer to a question: under its title, or else under its variable name. -/
def Question.recorded (q : Question) (title : String) (results : Store) : Value :=
  let byTitle := results.get (.text title)
  match q.variableName with
  | some name => if byTitle.isNull && !name.isEmpty then results.get (.text name) else byTitle
  | none => byTitle

/-- Whether a jump condition holds: for a question the text of the recorded answer itself, for an
action also the word `completed`, else the truth of the condition. -/
def Step.jumpHolds (s : Step) (condition : String) (results : Store) : Except Overflow Bool :=
  match s.body with
  | .question q => pure ((q.recorded s.title results).inserted == condition)
  | .action _ =>
    if condition == actionCompleted then pure true else Condition.holds condition results
  | _ => Condition.holds condition results

/-- A default transition is always satisfied, any other when its condition holds. -/
def Transition.satisfied (t : Transition) (results : Store) : Except Overflow Bool :=
  match t.condition with
  | some condition => Condition.holds condition results
  | none => pure true

namespace Workflow

/-- The step a given reference names; the empty one names none. -/
def target? (w : Workflow) : Option String → Option Step
  | some reference => w.resolve? reference
  | none => none

/-- The first jump that holds and leads to a step. -/
def jumpRoute? (w : Workflow) (s : Step) (results : Store) :
    List Jump → Except Overflow (Option Route)
  | [] => pure none
  | j :: rest => do
    match j.condition, j.target with
    | some condition, some target =>
      if condition.isEmpty || target.isEmpty then jumpRoute? w s results rest
      else if ← s.jumpHolds condition results then
        match w.resolve? target with
        | some t => pure (some ⟨w.positionOf t, some ("jump: " ++ condition), none⟩)
        | none => jumpRoute? w s results rest
      else jumpRoute? w s results rest
    | _, _ => jumpRoute? w s results rest

/-- The structurally next position, whatever the conditions. -/
def sequential (w : Workflow) (s : Step) : Strategy → Position
  | .linear =>
    match w.indexOf? s.id with
    | some i => .index (min (i + 1) w.steps.length : Nat)
    | none => .index w.steps.length
  | .graph =>
    match (s.transitions.filter (·.isDefault)).findSome? fun t => w.target? t.target with
    | some t => .node t.id
    | none => .nowhere

/-- The first transition that is satisfied and leads to a step. -/
def transitionRoute (w : Workflow) (results : Store) : List Transition → Except Overflow Route
  | [] => pure ⟨.nowhere, some "dead end", none⟩
  | t :: rest => do
    match t.target with
    | none => transitionRoute w results rest
    | some target =>
      if target.isEmpty then transitionRoute w results rest
      else if ← t.satisfied results then
        match w.resolve? target with
        | some s => pure ⟨.node s.id, some ("routing to " ++ s.id), t.condition⟩
        | none => transitionRoute w results rest
      else transitionRoute w results rest

/-- The route when no jump, branch or else target applies. -/
def fallback (w : Workflow) (strategy : Strategy) (s : Step) (results : Store) :
    Except Overflow Route :=
  match strategy with
  | .linear => pure ⟨w.sequential s .linear, none, none⟩
  | .graph => w.transitionRoute results s.transitions

/-- The first branch whose condition holds. -/
def firstBranch? (results : Store) : List Branch → Except Overflow (Option (String × Branch))
  | [] => pure none
  | b :: rest => do
    match b.condition with
    | none => firstBranch? results rest
    | some condition =>
      if condition.isEmpty then firstBranch? results rest
      else if ← Condition.holds condition results then pure (some (condition, b))
      else firstBranch? results rest

/-- A target that is missing leads on sequentially, and the reason says so. -/
def routeTo (w : Workflow) (strategy : Strategy) (s : Step) (target : Option String)
    (reason : String) (branch : Option String) : Route :=
  match w.target? target with
  | some t => ⟨w.positionOf t, some reason, branch⟩
  | none => ⟨w.sequential s strategy, some (reason ++ " (target not found)"), branch⟩

def decisionRoute (w : Workflow) (strategy : Strategy) (s : Step) (d : Decision)
    (results : Store) : Except Overflow Route := do
  match ← firstBranch? results d.branches with
  | some (condition, b) =>
    pure (w.routeTo strategy s b.target ("matched: " ++ condition) (some condition))
  | none =>
    match d.elseTarget.filter (!·.isEmpty) with
    | some target => pure (w.routeTo strategy s (some target) "else" none)
    | none =>
      let route ← w.fallback strategy s results
      pure { route with reason := some ((route.reason.filter (!·.isEmpty)).getD "no match") }

def nextRoute (w : Workflow) (strategy : Strategy) (s : Step) (results : Store) :
    Except Overflow Route := do
  match ← w.jumpRoute? s results s.jumps with
  | some route => pure route
  | none =>
    match s.body with
    | .decision d => w.decisionRoute strategy s d results
    | _ => w.fallback strategy s results

end Workflow
end Runbook
