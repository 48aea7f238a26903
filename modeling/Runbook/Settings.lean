import Runbook.Folder
import Runbook.Limits

/-! Settings: the limits that a file and the environment state. -/
namespace Runbook.Settings

/-- What paths lead to, the variables that a command can see, and the time at which it runs. -/
structure Surroundings where
  find : String → Found
  setting? : String → Option String
  now : Instant

/-- The file of settings: the one asked for, else the one the environment names, else
`config.yaml`. -/
def fileName (s : Surroundings) (asked : Option String) : String :=
  match asked.filter (!·.isEmpty) with
  | some name => name
  | none => (s.setting? "WAYFINDER_CONFIG").getD "config.yaml"

/-- The limits that a file states. An empty file states none. -/
def ofFile (content : Value) : Except Failure Limits :=
  match content with
  | .record fields =>
    (Reading.field fields ["limits"] (pure Limits.standard) Limits.read).toExcept
      "WayfinderConfig"
  | v => if v.truthy then .error .notSettings else .ok Limits.standard

/-- Puts the text of a variable over a field, unless it is unset or empty. -/
def override (s : Surroundings) (variableName fieldName : String) (fields : Fields) : Fields :=
  match (s.setting? variableName).filter (!·.isEmpty) with
  | some text => fields.put fieldName (.text text)
  | none => fields

/-- The limits in force: those of the file if there is one, with the environment's over them. -/
def load (s : Surroundings) (asked : Option String) : Except Failure Limits := do
  let path := fileName s asked
  let stated ← match s.find path with
    | .file content => ofFile content
    | .folder => .error (.isFolder path)
    | _ => pure Limits.standard
  let fields := override s "SIMULATION_MAX_SECONDS" "max_execution_time"
    (override s "SIMULATION_MAX_ITERATIONS" "max_iterations" stated.toRecord)
  (Limits.read (.record fields)).toExcept "LimitsConfig"

end Runbook.Settings
