import Runbook.Run.Listing
import Runbook.Value.Display

/-! Overviews: a definition and the outcome of a run, as lines of text. -/
namespace Runbook

/-- The first of the texts that is there and not empty. -/
def firstText (texts : List (Option String)) (default : String) : String :=
  (texts.findSome? nonEmpty?).getD default

namespace Workflow

/-- A transition shows the title of its target, or the id if there is no such step. -/
def transitionLine (w : Workflow) (t : Transition) : String :=
  let name := match t.target.bind w.stepById? with
    | some s => s.title
    | none => (Value.ofText? t.target).display
  "      -> " ++ name ++ " (" ++ firstText [t.label, t.condition] "default" ++ ")"

def stepLines (w : Workflow) (s : Step) (index : Nat) : List String :=
  let mark := if w.isGraph then s.id else toString index
  ("  [" ++ mark ++ "] " ++ s.title ++ " (" ++ s.kind ++ ")") ::
    s.transitions.map w.transitionLine

def overview (w : Workflow) : List String :=
  let start := match w.start? with
    | some s => s.title
    | none => "(none)"
  ["Workflow: " ++ firstText [some w.title] w.id,
    "Mode: " ++ (if w.isGraph then "graph" else "linear"), "Start: " ++ start, "Steps:"] ++
  w.steps.zipIdx.flatMap (fun (s, i) => w.stepLines s i) ++
  ["Terminal: " ++ firstText [some (", ".intercalate (w.terminals.map (·.label)))] "(none)"]

end Workflow

/-- A heading with its lines below, or nothing if there are none. -/
def block (heading : String) (lines : List String) : List String :=
  if lines.isEmpty then [] else heading :: lines.map ("  " ++ ·)

/-- The outcome of a run: its status, where it waits, its error, its results and its trail. -/
def Run.summary (w : Workflow) (r : Run) : List String :=
  ["Status: " ++ r.status.name] ++
  (if r.isFinal then [] else ["Waiting at: " ++ w.describe r.position]) ++
  (if r.error.truthy then ["Error: " ++ r.error.display] else []) ++
  block "Results:" (r.results.map fun (k, v) => k.display ++ ": " ++ v.display) ++
  block "Trail:" (trailLines r.trail)

end Runbook
