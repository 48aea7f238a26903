import Runbook.Check
import Runbook.Command.Arguments
import Runbook.Command.Inputs
import Runbook.Command.Walk
import Runbook.Conversion
import Runbook.Definition.Record
import Runbook.Definition.Workflow
import Runbook.Run.Saved
import Runbook.Settings

/-! The commands, each as a talk. -/
namespace Runbook

/-- The workflow that a file holds, with the number of the next fresh id. An empty file holds an
empty definition. -/
def Workflow.ofFile (file : String) (content : Value) : Except Failure (Workflow × Nat) :=
  let raw := if content.truthy then content else .record []
  match raw with
  | .record _ => do
    let w ← Workflow.read 1 raw
    pure (w, 1 + Workflow.freshTaken raw)
  | _ => .error (.notDefinition file)

namespace Command

/-- Why a definition could not be loaded. -/
def refuse (e : Failure) : Talk :=
  let opening := "Could not load workflow: "
  match e with
  | .faults model faults => .say (.text opening) (.say (.faults model faults) (.exit 1))
  | .notDefinition _ => .line (opening ++ e.message) (.exit 1)
  | _ => .fail e

def withWorkflow (s : Settings.Surroundings) (file : String) (next : Workflow → Nat → Talk) :
    Talk :=
  match s.find file with
  | .file content =>
    match Workflow.ofFile file content with
    | .ok (w, fresh) => next w fresh
    | .error e => refuse e
  | .folder => .fail (.isFolder file)
  | .tooLong => .fail (.longName file)
  | .missing | .blocked => .line ("Workflow file not found: " ++ file) (.exit 1)

/-- Writes a file, if it can be written. -/
def save (s : Settings.Surroundings) (file : String) (o : Output) (next : Talk) : Talk :=
  match Found.refusal? s.find file with
  | some e => .fail e
  | none => .save file o next

def withLimits (s : Settings.Surroundings) (settings : Option String) (next : Limits → Talk) :
    Talk :=
  match Settings.load s settings with
  | .ok limits => next limits
  | .error e => .fail e

/-- Lists the problems and gives up. -/
def reject (problems : List String) (verdict : String) : Talk :=
  .lines (problems.map ("- " ++ ·)) (.line verdict (.exit 1))

def validation (w : Workflow) (strict : Bool) (limits : Limits) : Talk :=
  match w.problems (!strict) limits with
  | .ok [] => .line "Workflow is valid" (.exit 0)
  | .ok problems => reject problems (toString problems.length ++ " problem(s) found")
  | .error e => .fail e

def conversion (s : Settings.Surroundings) (w : Workflow) (output : Option String) : Talk :=
  match w.toGraph with
  | .error (.problems problems) => reject problems "Conversion failed"
  | .error e => .fail e
  | .ok g =>
    match g.toData, output with
    | .error e, _ => .fail e
    | .ok data, none => .say (.document data) (.exit 0)
    | .ok data, some file =>
      save s file (.document data) (.line ("Wrote graph workflow to " ++ file) (.exit 0))

/-- Saves the run if a file is named for it, and exits. -/
def keep (s : Settings.Surroundings) (r : Run) : Option String → Talk
  | none => .exit r.exitCode
  | some file =>
    match r.toJson with
    | .error e => .fail e
    | .ok text =>
      save s file (.text text) (.line ("Saved simulation to " ++ file) (.exit r.exitCode))

/-- The clock of a batch: it goes on by some eight microseconds between two looks. The entries of the
trail bear the time at which the command began. -/
def batchClock (s : Settings.Surroundings) : SteadyClock := ⟨.zero, .ofRatio false 1 131072, s.now⟩

/-- Runs to completion, or to the first checkpoint. -/
def completion (s : Settings.Surroundings) (rn : Runner) (id : String) (inputs : Store)
    (state : Option String) : Talk :=
  match rn.start id inputs with
  | .error e => .fail e
  | .ok r =>
    match rn.execute r [] (batchClock s) with
    | (_, .error e, _) => .fail e
    | (r, .ok _, _) => .lines (r.summary rn.workflow) (keep s r state)

def perform (s : Settings.Surroundings) : Command → Talk
  | .overview file => withWorkflow s file fun w _ => .lines w.overview (.exit 0)
  | .validate file strict settings =>
    withWorkflow s file fun w _ => withLimits s settings fun l => validation w strict l
  | .convert file output => withWorkflow s file fun w _ => conversion s w output
  | .run file inputs state settings =>
    withWorkflow s file fun w fresh =>
      match parseInputs inputs with
      | .error _ => .close .misuse
      | .ok inputs =>
        withLimits s settings fun l =>
          completion s ⟨w, .ofLimits l⟩ (freshId fresh) inputs state
  | .walk file settings =>
    withWorkflow s file fun w fresh =>
      withLimits s settings fun l =>
        let rn : Runner := ⟨w, .ofLimits l⟩
        match rn.start (freshId fresh) [] with
        | .ok r => rn.walkThrough s.now r
        | .error e => .fail e

end Command

/-- How the commands are called. -/
def usage : List String :=
  ["Usage: [--verbose] COMMAND ...", "",
    "  workflow show FILE",
    "  workflow validate FILE [--strict] [--config FILE]",
    "  workflow convert FILE [--output FILE]",
    "  run FILE [--input NAME=VALUE]... [--state FILE] [--config FILE]",
    "  walk FILE [--config FILE]"]

def Request.talk (s : Settings.Surroundings) : Request → Talk
  | .command c => c.perform s
  | .help => .lines usage (.exit 0)
  | .misuse => .close .misuse

end Runbook
