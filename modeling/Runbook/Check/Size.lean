import Runbook.Definition.Record
import Runbook.Limits

/-! Size checks of a workflow against the limits. -/
namespace Runbook.Check

/-- A workflow with too many steps, or else with too much data. -/
def sizeProblem? (w : Workflow) (l : Limits) : Except Failure (Option String) :=
  if l.maxSteps < w.steps.length then
    .ok (some ("Workflow cannot exceed " ++ toString l.maxSteps ++ " steps (currently " ++
      toString w.steps.length ++ ")"))
  else match w.stepBytes with
    | .error e => .error e
    | .ok bytes =>
      .ok (if l.maxTotalSize < bytes then
          some ("Total workflow data is too large (" ++ toString bytes ++ " bytes, max " ++
            toString l.maxTotalSize ++ " bytes)")
        else none)

/-- The fields with longer texts, with the names that problems call them by. -/
def contentFields : List (String × String) :=
  [("description", "Description"), ("question", "Question"), ("instructions", "Instructions"),
    ("message", "Message"), ("content", "Content")]

/-- The text in a field of a step, of its type or extra. -/
def contentOf? (s : Step) (name : String) : Option String :=
  match Fields.get? (s.toRecord Fields.full) name with
  | some (.text t) => some t
  | _ => none

def stepHead (number : Nat) : String := "Step " ++ toString number

def contentProblems (number : Nat) (s : Step) (l : Limits) : List String :=
  contentFields.filterMap fun (field, name) =>
    (contentOf? s field).bind fun t =>
      if l.maxContentSize < t.utf8ByteSize then
        some (stepHead number ++ ": " ++ name ++ " is too large (" ++
          toString t.utf8ByteSize ++ " bytes, max " ++ toString l.maxContentSize ++ " bytes)")
      else none

def tooMany (number : Nat) (name : String) (count : Nat) (limit : Int) : List String :=
  if limit < count then
    [stepHead number ++ ": Too many " ++ name ++ " (max " ++ toString limit ++ ")"]
  else []

def stepSizeProblems (number : Nat) (s : Step) (l : Limits) : List String :=
  let title :=
    if l.maxTitleLength < s.title.length then
      [stepHead number ++ ": Title is too long (max " ++ toString l.maxTitleLength ++
        " characters)"]
    else []
  let lists := match s.body with
    | .question q => tooMany number "options" q.options.length l.maxOptions
    | .decision d => tooMany number "branches" d.branches.length l.maxBranches
    | _ => []
  title ++ contentProblems number s l ++ lists ++
    tooMany number "jumps" s.jumps.length l.maxJumps

end Runbook.Check
