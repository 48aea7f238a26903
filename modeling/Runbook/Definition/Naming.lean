import Runbook.Fault
import Runbook.Step
import Runbook.VariableName

/-! Variable names for questions that state none: made from the title, and distinct from all names
in use. -/
namespace Runbook.Definition.Naming

/-- The `k`-th name to try: the base itself, then the base with `_2`, `_3` and so on. -/
def candidate (base : String) (k : Nat) : String :=
  if k ≤ 1 then base else base ++ "_" ++ toString k

/-- The first candidate that is not taken. -/
def firstFree (base : String) (taken : List String) : String :=
  let tries := (List.range' 1 (taken.length + 1)).map (candidate base)
  (tries.find? (!taken.contains ·)).getD base

/-- The name a step wants: an unnamed question with a title that gives one. -/
def wanted? (s : Step) : Option String :=
  match s.body with
  | .question q => if q.variableName.isNone then VariableName.ofTitle? s.title else none
  | _ => none

def setName (s : Step) (name : String) : Step :=
  match s.body with
  | .question q => { s with body := .question { q with variableName := some name } }
  | _ => s

def assign (taken : List String) : List Step → List Step
  | [] => []
  | s :: rest =>
    match wanted? s with
    | some base =>
      let name := firstFree base taken
      setName s name :: assign (name :: taken) rest
    | none => s :: assign taken rest

/-- The variable names in use. -/
def namesInUse (steps : List Step) : List String :=
  steps.filterMap fun s =>
    match s.variableName with
    | .text t => if t.isEmpty then none else some t
    | _ => none

/-- A list or a record cannot be compared with names. -/
def unhashable? : Value → Option String
  | .list (_ :: _) => some "list"
  | .record (_ :: _) => some "dict"
  | _ => none

def assignNames (steps : List Step) : Except Failure (List Step) :=
  match steps.findSome? fun s => unhashable? s.variableName with
  | some kind => .error (.unhashable kind)
  | none => .ok (assign (namesInUse steps) steps)

end Runbook.Definition.Naming
