import Runbook.Workflow

/-! What can be reached from a step along edges. -/
namespace Runbook

/-- Visits nodes in breadth-first order. Only nodes in `remaining` are visited, each once; `rounds`
of them at most. -/
def explore (next : String → List String) :
    (rounds : Nat) → (remaining pending : List String) → List String
  | 0, _, _ => []
  | n + 1, remaining, pending =>
    match pending.find? remaining.contains with
    | none => []
    | some a => a :: explore next n (remaining.erase a) (pending ++ next a)

/-- The nodes of `domain` that can be reached from the seeds by edges inside it. -/
def reachable (next : String → List String) (domain seeds : List String) : List String :=
  explore next domain.length domain seeds

namespace Workflow

/-- The ids of steps and of the targets of transitions, each once. -/
def mentionedIds (w : Workflow) : List String :=
  (w.steps.flatMap fun s => s.id :: s.transitions.filterMap (·.target)).eraseDups

/-- The ids reachable from a step by transitions, breadth first. A target that names no step is
listed and not followed. -/
def reachableFrom (w : Workflow) (id : String) : List String :=
  match w.stepById? id with
  | some _ => reachable w.nextIds w.mentionedIds [id]
  | none => []

def reachableFromStart (w : Workflow) : List String :=
  match w.start? with
  | some s => w.reachableFrom s.id
  | none => []

end Workflow
end Runbook
