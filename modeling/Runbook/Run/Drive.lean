import Runbook.Run.Guard
import Runbook.Run.Process

/-! Driving runs under the guard: step by step, or in a batch that works on a copy. -/
namespace Runbook

structure Runner where
  workflow : Workflow
  guard : Guard
  deriving Inhabited

/-- The faults of keys that are no texts. A number that no word of 64 bits holds is named by its
digits. -/
def Store.keyFaults (inputs : Store) : List Fault :=
  inputs.filterMap fun (k, _) =>
    let path := fun (p : Place) => some ⟨[.field "inputs", p, .field "[key]"], .notText⟩
    match k with
    | .text _ => none
    | .whole n => path (if fitsWord n then .item n else .field (toString n))
    | .flag b => path (.item (if b then 1 else 0))
    | .null => path (.field "None")

namespace Runner

def currentStep? (rn : Runner) (r : Run) : Option Step := rn.workflow.stepAt? r.position

/-- A new run at the start of the workflow; one that has nowhere to start is complete. -/
def start (rn : Runner) (id : String) (inputs : Store) : Except Failure Run :=
  let faults := inputs.keyFaults
  if !faults.isEmpty then .error (.faults "Simulation" faults)
  else
    let r : Run :=
      ⟨id, some rn.workflow.id, .active, rn.workflow.startPosition, .nowhere, [], [], inputs, 0⟩
    .ok (if (rn.currentStep? r).isNone then r.finish rn.workflow else r)

def advanced (x : Run × Except Failure Outcome) : Run × Except Failure Bool :=
  (x.1, x.2.map (·.isAdvanced))

/-- Processes the current step. The flag tells whether the run advanced. -/
def process (rn : Runner) (now : Instant) (r : Run) (answer : Value) : Run × Except Failure Bool :=
  if r.isFinal then (r, .ok false)
  else match rn.currentStep? r with
    | none => (r.finish rn.workflow, .ok false)
    | some s =>
      if s.isCheckpoint then (r, .ok false)
      else match rn.guard.count r with
        | (r, false) => (r, .ok false)
        | (r, true) => advanced (rn.workflow.process now r s answer)

/-- Answers the checkpoint that the run waits at. -/
def answerCheckpoint (rn : Runner) (now : Instant) (r : Run) (resolved notes : Value) :
    Run × Except Failure Bool :=
  if r.isFinal || !(rn.currentStep? r).any (·.isCheckpoint) then (r, .ok false)
  else match rn.guard.count r with
    | (r, false) => (r, .ok false)
    | (r, true) => advanced (rn.workflow.answerCheckpoint now r resolved notes)

/-- The answer that the inputs hold for a question: under its variable name, else under its
position, else under its title. Nulls and empty texts are passed over. -/
def answerFor (r : Run) (s : Step) : Value :=
  match s.body with
  | .question q =>
    let names := [q.variableName.getD "", r.position.toValue.display, s.title]
    let isAnswer : Value → Bool
      | .null => false
      | .text t => !t.isEmpty
      | _ => true
    (((names.filter (!·.isEmpty)).map fun n => r.inputs.get (.text n)).find? isAnswer).getD .null
  | _ => .null

inductive BatchEnd where
  | ended
  | overrun
  | timedOut
  deriving DecidableEq, Inhabited

variable {κ τ : Type} [Moment τ] [Clock κ τ]

/-- Runs on until the run is final or waits at a checkpoint, or the guard trips; `room` is the
number of steps the guard still allows. -/
def batch (rn : Runner) (deadline : τ) : Nat → Run → κ → Run × Except Failure BatchEnd × κ
  | room, r, clock =>
    if r.isFinal then (r, .ok .ended, clock)
    else
      let (moment, clock) := Clock.read clock
      if Moment.reached deadline moment then
        (r.fail .timeout rn.guard.timeoutMessage, .ok .timedOut, clock)
      else match rn.currentStep? r with
        | none => (r.finish rn.workflow, .ok .ended, clock)
        | some s =>
          if s.isCheckpoint then (r, .ok .ended, clock)
          else match room with
            | 0 => (r.fail .error rn.guard.overrunMessage, .ok .overrun, clock)
            | room + 1 =>
              let counted := { r with iterations := r.iterations + 1 }
              match rn.workflow.process (Clock.now clock) counted s (answerFor counted s) with
              | (r, .ok _) => batch rn deadline room r clock
              | (r, .error e) => (r, .error e, clock)

/-- How many more steps the guard allows a run. -/
def room (g : Guard) (r : Run) : Nat := (g.maxIterations - r.iterations).toNat

/-- Runs to completion with the given inputs added. The flag is false if the guard tripped or the
run was final. A failure leaves the run as it was. -/
def execute (rn : Runner) (r : Run) (inputs : Store) (clock : κ) :
    Run × Except Failure Bool × κ :=
  if r.isFinal then (r, .ok false, clock)
  else
    let (moment, clock) := Clock.read clock
    match rn.guard.deadline moment with
    | .error e => (r, .error e, clock)
    | .ok deadline =>
      let work := { r with inputs := r.inputs.merge inputs }
      match rn.batch deadline (room rn.guard work) work clock with
      | (work, .ok how, clock) => (work, .ok (how == .ended), clock)
      | (_, .error e, clock) => (r, .error e, clock)

end Runner
end Runbook
