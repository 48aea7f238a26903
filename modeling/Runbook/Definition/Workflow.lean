import Runbook.Definition.Naming
import Runbook.Definition.Step
import Runbook.Text.Quoted
import Runbook.Workflow

/-! Reading workflows from raw definitions. -/
namespace Runbook
open Reading

/-- The `n`-th fresh id. -/
def freshId (n : Nat) : String :=
  "00000000-0000-0000-0000-" ++ String.ofList (Text.hexDigits 12 n)

namespace Definition

/-- A raw step that has none of these is no step at all. -/
def contentNames : List String :=
  ["type", "title", "description", "question", "action_type", "condition"]

def hasContent : Value → Bool
  | .record fields => contentNames.any fun n => (Fields.get fields n).present
  | _ => true

/-- A raw step of a known type that states no id takes a fresh one. -/
def takesFresh : Value → Bool
  | .record f => (typeOf f).isOk && (statedId? f).isNone
  | _ => false

def readSteps (fresh index : Nat) : List Value → Reading (List Step)
  | [] => pure []
  | v :: rest => do
    let s ← (readStep (freshId fresh) v).under (.item index)
    let ss ← readSteps (if takesFresh v then fresh + 1 else fresh) (index + 1) rest
    pure (s :: ss)

/-- The raw steps that are read. -/
def keptSteps : Value → List Value
  | .list items => items.filter hasContent
  | _ => []

/-- The kind of the branches that stop the reading of a decision, if any do. -/
def brokenBranches? : Value → Option String
  | .record f =>
    match typeOf f with
    | .ok (.decision _) => Decision.scalarBranches? f
    | _ => none
  | _ => none

def startNames : List String := ["start_node_id", "start_node_uuid"]

/-- The id of a workflow: any value but null, as text. -/
def workflowId? (fields : Fields) : Option String :=
  match fields.get? "id" with
  | none | some .null => none
  | some v => some v.display

def readFields (fresh : Nat) (fields : Fields) : Reading Workflow := do
  let stated := workflowId? fields
  let afterId := if stated.isSome then fresh else fresh + 1
  let title ← field fields ["title"] (pure "") text
  let isGraph ← field fields ["graph_mode"] (pure false) flag
  let startId ← field fields startNames (pure none) optionalText
  let steps ← field fields ["steps"] (pure []) fun
    | .list items => readSteps afterId 0 (keptSteps (.list items))
    | _ => fault (.notList .data)
  pure ⟨stated.getD (freshId fresh), title, isGraph, startId, steps⟩

/-- How many fresh ids a raw definition takes. -/
def freshTaken (fields : Fields) : Nat :=
  (if (workflowId? fields).isSome then 0 else 1) +
    (keptSteps (fields.get "steps")).countP takesFresh

end Definition

/-- Reads a workflow; fresh ids are taken from `fresh` on. -/
def Workflow.read (fresh : Nat) (raw : Value) : Except Failure Workflow := do
  match raw with
  | .record fields =>
    let kept := Definition.keptSteps (Fields.get fields "steps")
    match kept.findSome? Definition.brokenBranches? with
    | some kind => throw (.notIterable kind)
    | none =>
      let w ← (Definition.readFields fresh fields).toExcept "Workflow"
      let steps ← Definition.Naming.assignNames w.steps
      pure { w with steps }
  | _ => throw (.faults "Workflow" [⟨[], .notModel .data "Workflow"⟩])

/-- How many fresh ids reading a workflow takes. -/
def Workflow.freshTaken : Value → Nat
  | .record fields => Definition.freshTaken fields
  | _ => 0

end Runbook
