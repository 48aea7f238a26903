import Runbook.Fault
import Runbook.Value

/-! The older form of a decision: a condition with a true and a false target, in place of branches.
Raw definitions are brought into branch form before they are read. -/
namespace Runbook.Definition.Decision

/-- The first of the named fields that is present, null if none is. -/
def firstPresent (fields : Fields) (names : List String) : Value :=
  ((names.map fields.get).find? (·.present)).getD .null

def trueNames : List String := ["true_target", "true_path"]

def falseNames : List String := ["false_target", "false_path"]

def kindOfScalar? : Value → Option String
  | .flag true => some "bool"
  | .whole n => if n ≠ 0 then some "int" else none
  | .real x => if x.isZero then none else some "float"
  | _ => none

/-- The items of a raw list of branches: an empty or missing value has none, a text has its
characters, and a record its names. -/
def branchItems : Value → List Value
  | .list items => items
  | .text s => s.toList.map fun c => .text (String.singleton c)
  | .record fields => fields.map fun (k, _) => .text k
  | _ => []

def isKept : Value → Bool
  | .record fields =>
    let target := Fields.get fields "target"
    (Fields.get fields "condition").present ||
      (if target.truthy then target else Fields.get fields "path").present
  | _ => true

/-- The raw branches worth keeping: those with a condition or a target. -/
def keptBranches (fields : Fields) : List Value :=
  (branchItems (fields.get "branches")).filter isKept

/-- Moves the older fields into branches and an else target, unless there are branches already. -/
def canonical (fields : Fields) : Fields :=
  let condition := firstPresent fields ["condition"]
  let whenTrue := firstPresent fields trueNames
  let whenFalse := firstPresent fields falseNames
  let kept := keptBranches fields
  let rest := (fields.without ("condition" :: trueNames ++ falseNames)).put "branches" (.list kept)
  if !kept.isEmpty || !(whenTrue.present || whenFalse.present) then rest
  else
    let rest :=
      if condition.present then
        rest.put "branches" (.list [.record [("condition", condition), ("target", whenTrue)]])
      else rest
    let hasElse := (firstPresent rest ["else_target", "else_path"]).present
    if whenFalse.present && !hasElse then rest.put "else_target" whenFalse else rest

/-- The kind of a value that stands where branches should and has no items. -/
def scalarBranches? (fields : Fields) : Option String :=
  (fields.get? "branches").bind kindOfScalar?

end Runbook.Definition.Decision
