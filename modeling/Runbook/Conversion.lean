import Runbook.Check.Graph
import Runbook.Fault

/-! Conversion of a sequence into a graph: the order becomes default transitions, and branches
become conditional ones. Jumps stay on their steps. -/
namespace Runbook.Conversion

def edge (target : String) (condition : Option String) (label : String) : Transition :=
  ⟨some target, condition, some label⟩

/-- A way out of a decision: an edge, or the problem that its target is missing; a branch without a
target continues to the next step, if there is one. -/
def branchEdge (w : Workflow) (s : Step) (next : Option String) (b : Branch) :
    Except String (Option Transition) :=
  match b.condition.filter (!·.isEmpty) with
  | none => .ok none
  | some condition =>
    let label := "If " ++ condition
    match b.target with
    | none => .ok (next.map (edge · (some condition) label))
    | some target =>
      match w.resolve? target with
      | some t => .ok (some (edge t.id (some condition) label))
      | none =>
        .error ("Step '" ++ s.title ++ "': Branch path '" ++ target ++ "' could not be resolved")

/-- The last way out of a decision: the else target, or else the next step. -/
def elseEdge (w : Workflow) (s : Step) (next : Option String) (d : Decision) :
    List String × List Transition :=
  let default := (next.map (edge · none "Default")).toList
  match d.elseTarget.filter (!·.isEmpty) with
  | none => ([], default)
  | some target =>
    match w.resolve? target with
    | some t => ([], [edge t.id none "Else"])
    | none =>
      (["Step '" ++ s.title ++ "': Else path '" ++ target ++ "' could not be resolved"], default)

def problemOf? : Except String (Option Transition) → Option String
  | .error problem => some problem
  | .ok _ => none

def edgeOf? : Except String (Option Transition) → Option Transition
  | .ok e => e
  | .error _ => none

/-- A step in graph form, with the problems met; `next` is the id of the step after it. -/
def step (w : Workflow) (s : Step) (next : Option String) : List String × Step :=
  match s.body with
  | .decision d =>
    let ways := d.branches.map (branchEdge w s next)
    let (problems, last) := elseEdge w s next d
    (ways.filterMap problemOf? ++ problems,
      { s with
        transitions := ways.filterMap edgeOf? ++ last
        body := .decision { d with branches := [], elseTarget := none } })
  | .resolve _ => ([], { s with transitions := [] })
  | _ => ([], { s with transitions := (next.map (edge · none "Continue")).toList })

/-- Converts the steps, each with the id of the one after it. -/
def steps (w : Workflow) : List Step → List (List String × Step)
  | [] => []
  | s :: rest => step w s (rest.head?.map (·.id)) :: steps w rest

end Conversion

/-- The workflow as a graph. It fails if a branch names no step, or the graph has problems. -/
def Workflow.toGraph (w : Workflow) : Except Failure Workflow :=
  if w.isGraph then .ok w
  else match w.steps.head? with
    | none => .error (.problems ["Workflow has no steps"])
    | some first =>
      let converted := Conversion.steps w w.steps
      let graph : Workflow :=
        { w with isGraph := true, startId := some first.id, steps := converted.map (·.2) }
      let problems := converted.flatMap (·.1) ++ Check.graphProblems graph true
      if problems.isEmpty then .ok graph else .error (.problems problems)

end Runbook
