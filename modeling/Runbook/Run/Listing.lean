import Runbook.Run

/-! Listings: positions and trails as lines of text. -/
namespace Runbook

/-- The label and type of the step at a position. -/
def Workflow.describe (w : Workflow) (p : Position) : String :=
  match w.stepAt? p with
  | none => "(end)"
  | some s => s.label ++ " [" ++ s.kind ++ "]"

/-- A text that is there and not empty. -/
def nonEmpty? (s : Option String) : Option String := s.filter (!·.isEmpty)

/-- The parts of a trail line, from the step to what it did. -/
def Entry.parts (e : Entry) : List String :=
  let name := (nonEmpty? (some e.stepTitle)).getD (Value.ofText? e.stepId).display
  let answer := if e.answer.isNull then none else some ("answer=" ++ e.answer.quoted)
  let escalated := if e.escalated == some true then some "escalated" else none
  let resolved := e.resolved.map fun b => if b then "resolved" else "continued"
  let subFlow := (nonEmpty? e.subFlow).map ("sub-flow " ++ ·)
  let details := [answer, nonEmpty? e.reason, resolved, subFlow, escalated, nonEmpty? e.content]
  (name ++ " (" ++ e.stepType ++ ")") :: details.filterMap fun d => d

def Entry.line (number : Nat) (e : Entry) : String :=
  toString number ++ ". " ++ " - ".intercalate e.parts

def trailLines (trail : List Entry) : List String :=
  (trail.zipIdx 1).map fun (e, n) => e.line n

end Runbook
