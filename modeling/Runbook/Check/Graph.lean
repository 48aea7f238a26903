import Runbook.Workflow.Reach

/-! Structural checks of a graph: its start exists, no transition dangles, every step can be
reached, there is an end, and, if asked for, no cycle. -/
namespace Runbook.Check

/-- The ids a step leads to: targets of transitions, and the steps that jumps name. -/
def targets (w : Workflow) (s : Step) : List String :=
  (s.transitions.filterMap (·.target)).filter (!·.isEmpty) ++
    s.jumps.filterMap fun j => (j.target.bind w.resolve?).map (·.id)

/-- The ids that the first step with an id leads to. -/
def edges (w : Workflow) (id : String) : List String :=
  match w.node? id with
  | some s => targets w s
  | none => []

def nodeIds (w : Workflow) : List String := w.nodes.map (·.id)

/-- The title of the first step with an id, or the id. -/
def nodeLabel (w : Workflow) (id : String) : String :=
  match w.node? id with
  | some s => s.label
  | none => id

def startProblems (w : Workflow) : List String :=
  match w.startId.filter (!·.isEmpty) with
  | some id =>
    if (nodeIds w).contains id then []
    else ["Start node '" ++ id ++ "' does not exist in the workflow"]
  | none => []

def danglingProblems (w : Workflow) : List String :=
  w.nodes.flatMap fun s =>
    (s.transitions.zipIdx 1).filterMap fun (t, n) =>
      (t.target.filter fun id => !id.isEmpty && !(nodeIds w).contains id).map fun id =>
        "Step '" ++ s.label ++ "', Transition " ++ toString n ++
          ": References non-existent step ID: " ++ id

/-- The ids of the steps that cannot be reached from the start. -/
def unreachedIds (w : Workflow) : List String :=
  match w.start? with
  | none => []
  | some start =>
    let reached := reachable (edges w) (nodeIds w) [start.id]
    (nodeIds w).filter (!reached.contains ·)

def reachProblems (w : Workflow) : List String :=
  (unreachedIds w).map fun id =>
    "Step '" ++ nodeLabel w id ++ "' is not reachable from the start node"

def endProblems (w : Workflow) : List String :=
  if w.terminals.isEmpty then ["No terminal nodes found - workflow has no ending point"] else []

/-- What a search for a cycle knows: a cycle if one was found, and the nodes that are done. -/
structure Search where
  cycle : Option (List String)
  done : List String
  deriving Inhabited

/-- Searches depth first from a node at the end of `path`; the search goes at most `depth` deep. -/
def searchFrom (next : String → List String) (domain : List String) :
    (depth : Nat) → (path : List String) → (node : String) → (done : List String) → Search
  | 0, _, _, done => ⟨none, done⟩
  | depth + 1, path, node, done =>
    let path := path ++ [node]
    let found := (next node).foldl (fun (s : Search) target =>
      if s.cycle.isSome || !domain.contains target || s.done.contains target then s
      else if path.contains target then
        { s with cycle := some (path.dropWhile (· != target) ++ [target]) }
      else searchFrom next domain depth path target s.done) ⟨none, done⟩
    if found.cycle.isSome then found else { found with done := node :: found.done }

/-- The first cycle found from any node, in order, as a walk that ends where it starts. -/
def findCycle (next : String → List String) (domain : List String) : Option (List String) :=
  (domain.foldl (fun (s : Search) node =>
    if s.cycle.isSome || s.done.contains node then s
    else searchFrom next domain domain.length [] node s.done) ⟨none, []⟩).cycle

def cycleProblems (w : Workflow) : List String :=
  match findCycle (edges w) (nodeIds w) with
  | some walk => ["Cycle detected: " ++ " -> ".intercalate (walk.map (nodeLabel w))]
  | none => []

def graphProblems (w : Workflow) (allowCycles : Bool) : List String :=
  if w.steps.isEmpty then ["Workflow has no steps"]
  else
    startProblems w ++ danglingProblems w ++ reachProblems w ++ endProblems w ++
      (if allowCycles then [] else cycleProblems w)

end Runbook.Check
