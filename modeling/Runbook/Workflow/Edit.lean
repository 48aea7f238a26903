import Runbook.Definition.Step
import Runbook.Workflow

/-! Editing the transitions of a graph. -/
namespace Runbook

/-- Compares a target with a value as given, which a transition has read and may have changed. -/
def Transition.leadsTo (target : Value) (t : Transition) : Bool :=
  match target, t.target with
  | .text s, some id => s == id
  | .null, none => true
  | _, _ => false

namespace Workflow

def setTransitions (id : String) (transitions : List Transition) : List Step → List Step
  | [] => []
  | s :: rest =>
    if s.id == id then { s with transitions } :: rest else s :: setTransitions id transitions rest

/-- The record that a new edge is read from. -/
def edgeRecord (target condition label : Value) : Value :=
  .record [("target_id", target), ("condition", condition), ("label", label)]

/-- Adds an edge, and tells whether it did: not in a sequence, from a missing step, to nothing, or
where there is an edge to that target already. -/
def addTransition (w : Workflow) (source : String) (target condition label : Value) :
    Except Failure (Workflow × Bool) := do
  if !w.isGraph then return (w, false)
  match w.stepById? source with
  | none => return (w, false)
  | some s =>
    if !target.truthy || s.transitions.any (·.leadsTo target) then return (w, false)
    let t ← (Definition.readTransition (edgeRecord target condition label)).toExcept "Transition"
    return ({ w with steps := setTransitions s.id (s.transitions ++ [t]) w.steps }, true)

/-- Drops all edges between two steps, and tells whether there were any. -/
def removeTransition (w : Workflow) (source : String) (target : Value) : Workflow × Bool :=
  match w.isGraph, w.stepById? source with
  | true, some s =>
    if s.transitions.any (·.leadsTo target) then
      let kept := s.transitions.filter (!·.leadsTo target)
      ({ w with steps := setTransitions s.id kept w.steps }, true)
    else (w, false)
  | _, _ => (w, false)

end Workflow
end Runbook
