import Runbook.Proofs.RouteTargets
import Runbook.Run.Drive

/-! What one call does to a run: for each call that a runner takes, all it can leave behind. -/
namespace Runbook

/-- The entry tells of a step at a position. -/
structure Entry.TellsOf (e : Entry) (p : Position) (s : Step) : Prop where
  position : e.position = p
  stepId : e.stepId = some s.id
  stepTitle : e.stepTitle = s.title
  stepType : e.stepType = s.kind

namespace Run
variable {r : Run} {w : Workflow} {p : Position}

/-- The run one step on: counted, with the stores that the step leaves and its entry, at a position
that the step leads to. -/
def stepped (r : Run) (w : Workflow) (results inputs : Store) (e : Entry) (p : Position) : Run :=
  ({ r with results, inputs, iterations := r.iterations + 1 }.append e).move w p

theorem isFinal_eq_false : r.isFinal = false ↔ r.status = .active := by
  simp [isFinal, Status.isFinal]

theorem move_pastEnd (h : w.isPastEnd p = true) : r.move w p = r.finish w := by
  simp [move, h]

theorem move_inside (h : w.isPastEnd p = false) : r.move w p = { r with position := p } := by
  simp [move, h]

theorem move_endPosition (r : Run) (w : Workflow) : r.move w w.endPosition = r.finish w :=
  move_pastEnd (Workflow.isPastEnd_endPosition w)

variable (r) (w) (results inputs : Store) (e : Entry) (p)

@[simp] theorem stepped_id : (r.stepped w results inputs e p).id = r.id := by
  unfold stepped move; split <;> rfl

@[simp] theorem stepped_workflowId :
    (r.stepped w results inputs e p).workflowId = r.workflowId := by
  unfold stepped move; split <;> rfl

@[simp] theorem stepped_stoppedAt : (r.stepped w results inputs e p).stoppedAt = r.stoppedAt := by
  unfold stepped move; split <;> rfl

@[simp] theorem stepped_trail : (r.stepped w results inputs e p).trail = r.trail ++ [e] := by
  unfold stepped move; split <;> rfl

@[simp] theorem stepped_results : (r.stepped w results inputs e p).results = results := by
  unfold stepped move; split <;> rfl

@[simp] theorem stepped_inputs : (r.stepped w results inputs e p).inputs = inputs := by
  unfold stepped move; split <;> rfl

@[simp] theorem stepped_iterations :
    (r.stepped w results inputs e p).iterations = r.iterations + 1 := by
  unfold stepped move; split <;> rfl

theorem stepped_status :
    (r.stepped w results inputs e p).status = if w.isPastEnd p then .completed else r.status := by
  unfold stepped move; split <;> rfl

theorem stepped_position :
    (r.stepped w results inputs e p).position = if w.isPastEnd p then w.endPosition else p := by
  unfold stepped move; split <;> rfl

theorem stands_stepped (hp : w.Lands p)
    (h : (r.stepped w results inputs e p).status = .active) :
    ∃ s, w.stepAt? (r.stepped w results inputs e p).position = some s := by
  rw [stepped_status] at h
  rw [stepped_position]
  cases hend : w.isPastEnd p with
  | true => simp [hend] at h
  | false => exact hp.resolve_left (by simp [hend])

end Run

theorem Position.recorded_of_stepAt? {w : Workflow} {p : Position} {s : Step}
    (h : w.stepAt? p = some s) : p.recorded = .ok p := by
  cases p with
  | index n => rfl
  | node id => rfl
  | nowhere => rfl
  | foreign v => simp [Workflow.stepAt?] at h

def Store.recordAll (store : Store) (names : List String) (v : Value) : Store :=
  names.foldl (fun store name => store.put (.text name) v) store

theorem Store.recordAll_cons (store : Store) (name : String) (names : List String) (v : Value) :
    store.recordAll (name :: names) v = (store.put (.text name) v).recordAll names v := rfl

/-- The names that an answer is kept under among the results. -/
def Question.names (q : Question) (title : String) : List String :=
  [q.variableName.getD "", title].filter (!·.isEmpty)

theorem Question.record_eq (q : Question) (title : String) (p : Position) {a : Value}
    (ha : a.present = true) (results inputs : Store) :
    q.record title p a results inputs =
      (results.recordAll (q.names title) a,
        inputs.recordAll (p.toValue.display :: q.names title) a) := by
  cases hname : (q.variableName.getD "").isEmpty <;> cases htitle : title.isEmpty <;>
    simp [record, ha, names, Store.recordAll, Store.record, hname, htitle]

namespace Workflow
variable {w : Workflow} {now : Instant} {r : Run} {s : Step} {a : Value}

/-- Where a step whose writes are done sends the run. -/
def way (w : Workflow) (s : Step) (results : Store) : Except Overflow Route :=
  if s.isResolve then .ok ⟨w.endPosition, none, none⟩ else w.nextRoute w.strategy s results

theorem way_leads {rs : Store} {route : Route} (h : w.way s rs = .ok route) :
    route.position = w.endPosition ∨ w.Leads s route.position := by
  unfold way at h
  split at h
  · cases h; exact .inl rfl
  · exact .inr (nextRoute_leads h)

theorem writes_eq (s : Step) (r : Run) (a : Value) :
    writes s r a =
      { r with results := (writes s r a).results, inputs := (writes s r a).inputs } := by
  unfold writes; split <;> rfl

theorem writes_counted (s : Step) (r : Run) (n : Int) (a : Value) :
    writes s { r with iterations := n } a = { writes s r a with iterations := n } := by
  unfold writes; split <;> rfl

def entryAfter (now : Instant) (s : Step) (p : Position) (results : Store) (a : Value)
    (route : Route) : Entry :=
  Entry.routed (entryOf now s p results a) s route

theorem entryAfter_tellsOf (now : Instant) (s : Step) (p : Position) (rs : Store) (a : Value)
    (route : Route) :
    (entryAfter now s p rs a route).TellsOf p s := by
  cases hb : s.body <;> simp only [entryAfter, Entry.routed, entryOf, hb] <;>
    exact ⟨rfl, rfl, rfl, rfl⟩

theorem entryAfter_time (now : Instant) (s : Step) (p : Position) (rs : Store) (a : Value)
    (route : Route) : (entryAfter now s p rs a route).time = now.stamp := by
  cases hb : s.body <;> simp only [entryAfter, Entry.routed, entryOf, hb] <;> rfl

/-- Routing is the only thing in a step that can fail, and it leaves the writes made before. -/
theorem process_eq (hr : r.isFinal = false) (hs : s.isCheckpoint = false)
    (hp : r.position.recorded = .ok r.position) :
    w.process now r s a =
      match w.way s (writes s r a).results with
      | .ok route =>
        let e := entryAfter now s r.position (writes s r a).results a route
        let r' := ((writes s r a).append e).move w route.position
        (r', .ok (.advanced r'.position))
      | .error _ => (writes s r a, .error .tooLarge) := by
  have hw : (writes s r a).position = r.position := by rw [writes_eq]
  simp only [process, hr, hs, way]
  cases hx : s.isResolve with
  | true =>
    have he : ∀ rs, entryOf now s r.position rs .null =
        entryAfter now s r.position rs a ⟨w.endPosition, none, none⟩ := by
      intro rs
      cases hb : s.body <;> simp_all [Step.isResolve, entryAfter, Entry.routed, entryOf, Entry.of]
    simp [conclude, hw, hp, bind, Except.bind, pure, Except.pure, he, Run.move_endPosition]
  | false =>
    simp only [advance, hw, hp]
    cases hroute : w.nextRoute w.strategy s (writes s r a).results with
    | error e => rfl
    | ok route => rfl

def checkpointText (resolved : Value) : Value :=
  .text (if resolved.truthy then "Issue resolved - workflow completed"
    else "Issue not resolved - continuing workflow")

def checkpointWay (w : Workflow) (s : Step) (resolved : Value) (results : Store) :
    Except Overflow Position :=
  if resolved.truthy then .ok w.endPosition
  else (w.fallback w.strategy s results).map (·.position)

theorem checkpointWay_leads {resolved : Value} {rs : Store} {p : Position}
    (h : w.checkpointWay s resolved rs = .ok p) : p = w.endPosition ∨ w.Leads s p := by
  unfold checkpointWay at h
  split at h
  · cases h; exact .inl rfl
  · cases hf : w.fallback w.strategy s rs with
    | error e => simp [hf, Except.map] at h
    | ok route =>
      rw [hf] at h
      cases h
      exact .inr (fallback_leads hf)

theorem checkpointEntry_tellsOf {p : Position} {resolved notes : Value} {e : Entry}
    (h : (checkpointEntry now s p resolved notes).toExcept "ExecutionEntry" = .ok e) :
    e.TellsOf p s := by
  unfold Reading.toExcept at h
  split at h
  · cases h; exact ⟨rfl, rfl, rfl, rfl⟩
  · cases h

theorem answerCheckpoint_eq {resolved notes : Value} (hr : r.isFinal = false)
    (hs : w.stepAt? r.position = some s) (hc : s.isCheckpoint = true) :
    w.answerCheckpoint now r resolved notes =
      match (checkpointEntry now s r.position resolved notes).toExcept "ExecutionEntry" with
      | .error f => (r, .error f)
      | .ok e =>
        let results := r.results.record s.title (checkpointText resolved)
        let r' := { r.append e with results }
        match w.checkpointWay s resolved results with
        | .ok p => (r'.move w p, .ok (.advanced (r'.move w p).position))
        | .error _ => (r', .error .tooLarge) := by
  simp only [answerCheckpoint, hr, hs, Option.filter, hc, if_true, Bool.false_eq_true, if_false]
  cases hread : (checkpointEntry now s r.position resolved notes).toExcept "ExecutionEntry" with
  | error f => rfl
  | ok e =>
    cases ht : resolved.truthy with
    | true => simp [checkpointText, checkpointWay, ht, Run.append, Run.move_endPosition]
    | false =>
      simp only [checkpointText, checkpointWay, ht, Run.append, Bool.false_eq_true, if_false]
      cases w.fallback w.strategy s
          (r.results.record s.title (.text "Issue not resolved - continuing workflow")) <;> rfl

end Workflow

namespace Runner
variable {rn : Runner} {now : Instant} {r : Run} {s : Step} {a : Value}

def opening (rn : Runner) (id : String) (inputs : Store) : Run :=
  ⟨id, some rn.workflow.id, .active, rn.workflow.startPosition, .nowhere, [], [], inputs, 0⟩

theorem start_eq (rn : Runner) (id : String) {inputs : Store} (hk : inputs.keyFaults = []) :
    rn.start id inputs =
      .ok (if (rn.workflow.stepAt? rn.workflow.startPosition).isNone then
        (rn.opening id inputs).finish rn.workflow else rn.opening id inputs) := by
  simp [start, hk, currentStep?, opening]

theorem keyFaults_of_start {id : String} {inputs : Store} (h : rn.start id inputs = .ok r) :
    inputs.keyFaults = [] := by
  cases hk : inputs.keyFaults with
  | nil => rfl
  | cons f fs => simp [start, hk] at h

theorem started {id : String} {inputs : Store} (h : rn.start id inputs = .ok r) :
    (rn.workflow.stepAt? rn.workflow.startPosition = none ∧
      r = (rn.opening id inputs).finish rn.workflow) ∨
    (∃ s, rn.workflow.stepAt? rn.workflow.startPosition = some s ∧ r = rn.opening id inputs) := by
  rw [start_eq rn id (keyFaults_of_start h)] at h
  cases hs : rn.workflow.stepAt? rn.workflow.startPosition with
  | none =>
    simp only [hs, Option.isNone_none, if_true, Except.ok.injEq] at h
    exact .inl ⟨rfl, h.symm⟩
  | some s =>
    simp only [hs, Option.isNone_some, Bool.false_eq_true, if_false, Except.ok.injEq] at h
    exact .inr ⟨s, rfl, h.symm⟩

/-- All that a call to process a step can leave of an active run when it returns. -/
inductive Processed (rn : Runner) (now : Instant) (r : Run) (a : Value) : Run → Bool → Prop where
  | ended : rn.currentStep? r = none → Processed rn now r a (r.finish rn.workflow) false
  | waiting {s : Step} : rn.currentStep? r = some s → s.isCheckpoint = true →
      Processed rn now r a r false
  | overrun {s : Step} : rn.currentStep? r = some s → s.isCheckpoint = false →
      rn.guard.hasRoom r = false →
      Processed rn now r a (r.fail .error rn.guard.overrunMessage) false
  | advanced {s : Step} {route : Route} : rn.currentStep? r = some s → s.isCheckpoint = false →
      rn.guard.hasRoom r = true →
      rn.workflow.way s (Workflow.writes s r a).results = .ok route →
      Processed rn now r a
        (r.stepped rn.workflow (Workflow.writes s r a).results (Workflow.writes s r a).inputs
          (Workflow.entryAfter now s r.position (Workflow.writes s r a).results a route)
          route.position) true

theorem process_eq (hr : r.isFinal = false) (hs : rn.currentStep? r = some s)
    (hc : s.isCheckpoint = false) (hg : rn.guard.hasRoom r = true) :
    rn.process now r a =
      match rn.workflow.way s (Workflow.writes s r a).results with
      | .ok route =>
        (r.stepped rn.workflow (Workflow.writes s r a).results (Workflow.writes s r a).inputs
          (Workflow.entryAfter now s r.position (Workflow.writes s r a).results a route)
          route.position, .ok true)
      | .error _ => ({ Workflow.writes s r a with iterations := r.iterations + 1 },
          .error .tooLarge) := by
  have hp := Position.recorded_of_stepAt? hs
  have hcounted : ({ r with iterations := r.iterations + 1 } : Run).isFinal = false := hr
  simp only [process, hr, hs, hc, Guard.count, hg, Bool.false_eq_true, if_true, if_false]
  rw [Workflow.process_eq hcounted hc hp, Workflow.writes_counted]
  cases rn.workflow.way s (Workflow.writes s r a).results with
  | error e => rfl
  | ok route =>
    rw [Workflow.writes_eq s r a]
    rfl

theorem process_final (hr : r.isFinal = true) : rn.process now r a = (r, .ok false) := by
  simp [process, hr]

theorem process_ended (hr : r.isFinal = false) (hs : rn.currentStep? r = none) :
    rn.process now r a = (r.finish rn.workflow, .ok false) := by
  simp [process, hr, hs]

theorem process_waiting (hr : r.isFinal = false) (hs : rn.currentStep? r = some s)
    (hc : s.isCheckpoint = true) : rn.process now r a = (r, .ok false) := by
  simp [process, hr, hs, hc]

theorem process_overrun (hr : r.isFinal = false) (hs : rn.currentStep? r = some s)
    (hc : s.isCheckpoint = false) (hg : rn.guard.hasRoom r = false) :
    rn.process now r a = (r.fail .error rn.guard.overrunMessage, .ok false) := by
  simp [process, hr, hs, hc, Guard.count, hg]

theorem processed {r' : Run} {b : Bool} (hr : r.isFinal = false)
    (h : rn.process now r a = (r', .ok b)) : Processed rn now r a r' b := by
  cases hs : rn.currentStep? r with
  | none =>
    rw [process_ended hr hs] at h
    cases h
    exact .ended hs
  | some s =>
    cases hc : s.isCheckpoint with
    | true =>
      rw [process_waiting hr hs hc] at h
      cases h
      exact .waiting hs hc
    | false =>
      cases hg : rn.guard.hasRoom r with
      | false =>
        rw [process_overrun hr hs hc hg] at h
        cases h
        exact .overrun hs hc hg
      | true =>
        rw [process_eq hr hs hc hg] at h
        cases hway : rn.workflow.way s (Workflow.writes s r a).results with
        | error e => rw [hway] at h; cases h
        | ok route =>
          rw [hway] at h
          cases h
          exact .advanced hs hc hg hway

/-- All that an answer to a checkpoint can leave of an active run when the call returns. -/
inductive Answered (rn : Runner) (now : Instant) (r : Run) (resolved notes : Value) :
    Run → Bool → Prop where
  | refused : (rn.currentStep? r).any (·.isCheckpoint) = false →
      Answered rn now r resolved notes r false
  | overrun {s : Step} : rn.currentStep? r = some s → s.isCheckpoint = true →
      rn.guard.hasRoom r = false →
      Answered rn now r resolved notes (r.fail .error rn.guard.overrunMessage) false
  | advanced {s : Step} {e : Entry} {p : Position} : rn.currentStep? r = some s →
      s.isCheckpoint = true → rn.guard.hasRoom r = true →
      (Workflow.checkpointEntry now s r.position resolved notes).toExcept "ExecutionEntry" = .ok e →
      rn.workflow.checkpointWay s resolved
        (r.results.record s.title (Workflow.checkpointText resolved)) = .ok p →
      Answered rn now r resolved notes
        (r.stepped rn.workflow (r.results.record s.title (Workflow.checkpointText resolved))
          r.inputs e p) true

theorem answerCheckpoint_final {resolved notes : Value} (hr : r.isFinal = true) :
    rn.answerCheckpoint now r resolved notes = (r, .ok false) := by
  simp [answerCheckpoint, hr]

theorem answerCheckpoint_refused {resolved notes : Value}
    (hs : (rn.currentStep? r).any (·.isCheckpoint) = false) :
    rn.answerCheckpoint now r resolved notes = (r, .ok false) := by
  simp [answerCheckpoint, hs]

theorem answerCheckpoint_overrun {resolved notes : Value} (hr : r.isFinal = false)
    (hs : rn.currentStep? r = some s) (hc : s.isCheckpoint = true)
    (hg : rn.guard.hasRoom r = false) :
    rn.answerCheckpoint now r resolved notes =
      (r.fail .error rn.guard.overrunMessage, .ok false) := by
  simp [answerCheckpoint, hr, hs, hc, Guard.count, hg]

theorem answerCheckpoint_eq {resolved notes : Value} (hr : r.isFinal = false)
    (hs : rn.currentStep? r = some s) (hc : s.isCheckpoint = true)
    (hg : rn.guard.hasRoom r = true) :
    rn.answerCheckpoint now r resolved notes =
      match (Workflow.checkpointEntry now s r.position resolved notes).toExcept "ExecutionEntry" with
      | .error f => ({ r with iterations := r.iterations + 1 }, .error f)
      | .ok e =>
        let results := r.results.record s.title (Workflow.checkpointText resolved)
        match rn.workflow.checkpointWay s resolved results with
        | .ok p => (r.stepped rn.workflow results r.inputs e p, .ok true)
        | .error _ =>
          ({ r.append e with results, iterations := r.iterations + 1 }, .error .tooLarge) := by
  have hcounted : ({ r with iterations := r.iterations + 1 } : Run).isFinal = false := hr
  simp only [answerCheckpoint, hr, hs, hc, Guard.count, hg, Option.any_some, Bool.not_true,
    Bool.or_self, Bool.false_eq_true, if_true, if_false]
  rw [Workflow.answerCheckpoint_eq hcounted hs hc]
  cases (Workflow.checkpointEntry now s r.position resolved notes).toExcept "ExecutionEntry" with
  | error f => rfl
  | ok e =>
    cases hway : rn.workflow.checkpointWay s resolved
        (r.results.record s.title (Workflow.checkpointText resolved)) with
    | error o => simp only [hway]; rfl
    | ok p => simp only [hway]; rfl

theorem answered {resolved notes : Value} {r' : Run} {b : Bool} (hr : r.isFinal = false)
    (h : rn.answerCheckpoint now r resolved notes = (r', .ok b)) :
    Answered rn now r resolved notes r' b := by
  cases hs : (rn.currentStep? r).any (·.isCheckpoint) with
  | false =>
    rw [answerCheckpoint_refused hs] at h
    cases h
    exact .refused hs
  | true =>
    obtain ⟨s, hs, hc⟩ := (Option.any_eq_true _ _).1 hs
    cases hg : rn.guard.hasRoom r with
    | false =>
      rw [answerCheckpoint_overrun hr hs hc hg] at h
      cases h
      exact .overrun hs hc hg
    | true =>
      rw [answerCheckpoint_eq hr hs hc hg] at h
      cases he : (Workflow.checkpointEntry now s r.position resolved notes).toExcept
          "ExecutionEntry" with
      | error f => rw [he] at h; cases h
      | ok e =>
        cases hway : rn.workflow.checkpointWay s resolved
            (r.results.record s.title (Workflow.checkpointText resolved)) with
        | error o => simp only [he, hway] at h; cases h
        | ok p =>
          simp only [he, hway] at h
          cases h
          exact .advanced hs hc hg he hway

def sample : Runner where
  workflow := ⟨"sample", "Sample", false, none,
    [⟨"ask", "Again?", none, [], [], .question ⟨none, some "answer", "text", []⟩, []⟩,
      ⟨"choose", "", none, [], [],
        .decision ⟨false, [⟨some "answer == 'yes'", some "Again?"⟩], none⟩, []⟩,
      ⟨"finish", "Finish", none, [], [], .action ⟨none, []⟩, []⟩]⟩
  guard := ⟨10, .whole 5⟩

end Runner

def Instant.leapDay : Instant :=
  ⟨⟨2024, 2, 29⟩, 86399, 999999, by decide, by decide, by decide⟩

def SteadyClock.stopped : SteadyClock := ⟨.zero, .zero, .leapDay⟩

end Runbook
