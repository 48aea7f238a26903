import Runbook.Run.Process

/-! Rewinding: the state of a run rebuilt from the first entries of its trail. Only answers and
actions are replayed, for they alone write what later steps read. -/
namespace Runbook

/-- The part of a run that a replay rebuilds. -/
structure Replay where
  results : Store
  inputs : Store
  position : Position
  trail : List Entry
  deriving Inhabited

namespace Workflow

/-- The step an entry is about: by id, or else by position. -/
def stepOf? (w : Workflow) (e : Entry) : Option Step :=
  match e.stepId.bind w.stepById? with
  | some s => some s
  | none => w.stepAt? e.position

/-- The stores after the writes of one entry. -/
def replayEntry (w : Workflow) (stores : Store × Store) (e : Entry) : Store × Store :=
  match w.stepOf? e with
  | none => stores
  | some s =>
    match s.body with
    | .question q =>
      if e.stepType == "question" then q.record s.title e.position e.answer stores.1 stores.2
      else stores
    | .action a =>
      if e.stepType == "action" then (a.apply s.title stores.1, stores.2) else stores
    | _ => stores

/-- Where a replay resumes: at the first entry that is dropped, or else at the given position. -/
def resumePosition (w : Workflow) (entries : List Entry) (kept : Nat) (current : Position) :
    Position :=
  match entries[kept]?, current with
  | some e, _ => e.position
  | none, .nowhere => if entries.isEmpty then w.startPosition else w.endPosition
  | none, p => p

/-- Replays the first `upto` entries; less than none counts as none. -/
def replay (w : Workflow) (entries : List Entry) (upto : Int) (current : Position) : Replay :=
  let kept := min upto.toNat entries.length
  let trail := entries.take kept
  let (results, inputs) := trail.foldl w.replayEntry ([], [])
  ⟨results, inputs, w.resumePosition entries kept current, trail⟩

end Workflow

/-- The run as it was after its first `upto` entries, active again. -/
def Run.rewound (r : Run) (w : Workflow) (upto : Int) : Run :=
  let state := w.replay r.trail upto r.position
  { r with
    status := .active
    position := state.position
    stoppedAt := .nowhere
    trail := state.trail
    results := state.results
    inputs := state.inputs
    iterations := state.trail.length }

end Runbook
