import Runbook.Proofs.ConvertedRoutes
import Runbook.Proofs.StepCalls

/-! Runs of a sequence and of its converted form go hand in hand: whatever calls are made on both,
they answer alike, write the same results, and stand at the same step. -/
namespace Runbook

/-- What an entry says apart from when it was made and why the run went on as it did. -/
def Entry.bare (e : Entry) : Entry := { e with reason := none, branch := none, time := default }

def Entry.mirrored (w : Workflow) (e : Entry) : Entry :=
  { e.bare with position := w.mirror e.position }

/-- The second run is the first as seen in the graph. -/
structure Run.Mirrors (w : Workflow) (l g : Run) : Prop where
  status : g.status = l.status
  results : g.results = l.results
  iterations : g.iterations = l.iterations
  trail : g.trail.map (·.bare) = l.trail.map (·.mirrored w)
  within : ∃ i ≤ w.steps.length, l.position = .index (i : Nat)
  position : g.position = w.mirror l.position

namespace Workflow
variable {w g : Workflow} {s t : Step} {p : Position}

theorem positionOf_within (hw : w.isGraph = false) (ht : t ∈ w.steps) :
    ∃ i ≤ w.steps.length, w.positionOf t = .index (i : Nat) := by
  obtain ⟨i, hi⟩ := Option.isSome_iff_exists.1 (isSome_indexOf? ht)
  obtain ⟨u, hu, -⟩ := indexOf?_eq_some hi
  have hlt : i < w.steps.length := (List.getElem?_eq_some_iff.1 hu).1
  exact ⟨i, by omega, by simp [positionOf, hw, hi]⟩

theorem Leads.within (hw : w.isGraph = false) (h : w.Leads s p) :
    ∃ i ≤ w.steps.length, p = .index (i : Nat) := by
  cases h with
  | jump _ ht => exact positionOf_within hw (mem_of_target? ht)
  | branch _ _ ht => exact positionOf_within hw (mem_of_target? ht)
  | otherwise _ ht => exact positionOf_within hw (mem_of_target? ht)
  | transition hg => simp [hw] at hg
  | deadEnd hg => simp [hw] at hg
  | next =>
    simp only [sequential]
    split
    · exact ⟨_, Nat.min_le_right _ _, rfl⟩
    · exact ⟨_, Nat.le_refl _, rfl⟩

theorem endPosition_within (hw : w.isGraph = false) :
    ∃ i ≤ w.steps.length, w.endPosition = .index (i : Nat) :=
  ⟨w.steps.length, Nat.le_refl _, by simp [endPosition, hw]⟩

theorem way_within (hw : w.isGraph = false) {rs : Store} {route : Route}
    (h : w.way s rs = .ok route) : ∃ i ≤ w.steps.length, route.position = .index (i : Nat) := by
  cases way_leads h with
  | inl hend => rw [hend]; exact endPosition_within hw
  | inr hleads => exact hleads.within hw

theorem checkpointWay_within (hw : w.isGraph = false) {resolved : Value} {rs : Store}
    (h : w.checkpointWay s resolved rs = .ok p) :
    ∃ i ≤ w.steps.length, p = .index (i : Nat) := by
  cases checkpointWay_leads h with
  | inl hend => rw [hend]; exact endPosition_within hw
  | inr hleads => exact hleads.within hw

namespace Redrawn

theorem mirror_endPosition (h : w.Redrawn g) : w.mirror w.endPosition = g.endPosition := by
  simp [endPosition, h.linear, h.graph, mirror_index]

theorem startPosition_eq (h : w.Redrawn g) (hn : w.Named) (hd : w.Distinct) :
    g.startPosition = w.mirror w.startPosition := by
  have hzero : w.startPosition = .index (0 : Nat) := by simp [startPosition, h.linear]
  rw [hzero, mirror_index]
  cases hsteps : w.steps with
  | nil => simp [startPosition, h.graph, start?, h.start, h.steps, hsteps]
  | cons s rest =>
    have hmem : s ∈ w.steps := by simp [hsteps]
    have hfirst : w.stepById? s.id = some s := stepById?_id (hn s hmem) hd hmem
    simp [startPosition, h.graph, start?, h.start, hsteps, h.stepById?_eq, hfirst]

theorem isPastEnd_mirror (h : w.Redrawn g) (i : Nat) :
    g.isPastEnd (w.mirror (.index i)) = w.isPastEnd (.index i) := by
  rw [mirror_index]
  by_cases hi : i < w.steps.length
  · have hle : ¬w.steps.length ≤ i := by omega
    simp [List.getElem?_eq_getElem hi, isPastEnd, h.graph, h.linear, hle]
  · have hle : w.steps.length ≤ i := by omega
    simp [isPastEnd, h.linear, hle]

theorem stepAt?_mirror (h : w.Redrawn g) (hn : w.Named) (hd : w.Distinct) (i : Nat) :
    g.stepAt? (w.mirror (.index i)) = (w.stepAt? (.index i)).map w.converted := by
  rw [mirror_index, stepAt?_index h.linear]
  cases hs : w.steps[i]? with
  | none => rfl
  | some s =>
    have hmem := List.mem_of_getElem? hs
    simp [stepAt?_node h.graph, h.stepById?_eq, stepById?_id (hn s hmem) hd hmem]

theorem way_eq (h : w.Redrawn g) (hn : w.Named) (hd : w.Distinct) (hc : w.EndsClosed)
    (hs : s ∈ w.steps) (rs : Store) :
    (g.way (w.converted s) rs).map (·.position) = (w.way s rs).map (w.mirror ·.position) := by
  simp only [way, converted_isResolve]
  cases hr : s.isResolve with
  | true => simp [Except.map, h.mirror_endPosition]
  | false =>
    rw [strategy_linear h.linear, strategy_graph h.graph]
    simpa using h.nextRoute_eq hn hd hc hs hr rs

theorem way_cases (h : w.Redrawn g) (hn : w.Named) (hd : w.Distinct) (hc : w.EndsClosed)
    (hs : s ∈ w.steps) (rs : Store) :
    (∃ e e', w.way s rs = .error e ∧ g.way (w.converted s) rs = .error e') ∨
      ∃ route route', w.way s rs = .ok route ∧ g.way (w.converted s) rs = .ok route' ∧
        route'.position = w.mirror route.position := by
  have hway := h.way_eq hn hd hc hs rs
  cases hl : w.way s rs with
  | error e =>
    cases hr : g.way (w.converted s) rs with
    | error e' => exact .inl ⟨e, e', rfl, rfl⟩
    | ok route' => simp [hl, hr, Except.map] at hway
  | ok route =>
    cases hr : g.way (w.converted s) rs with
    | error e' => simp [hl, hr, Except.map] at hway
    | ok route' =>
      rw [hl, hr] at hway
      exact .inr ⟨route, route', rfl, rfl, Except.ok.inj hway⟩

theorem checkpointWay_eq (h : w.Redrawn g) (hn : w.Named) (hd : w.Distinct) (hs : s ∈ w.steps)
    (hk : s.isCheckpoint = true) (resolved : Value) (rs : Store) :
    g.checkpointWay (w.converted s) resolved rs = (w.checkpointWay s resolved rs).map w.mirror := by
  simp only [checkpointWay]
  cases resolved.truthy with
  | true => simp [Except.map, h.mirror_endPosition]
  | false =>
    have hb : ∀ d, s.body ≠ .decision d := by
      intro d hb
      simp [Step.isCheckpoint, hb] at hk
    have hr : s.isResolve = false := by
      cases hb : s.body <;> simp_all [Step.isCheckpoint, Step.isResolve]
    have hroute := h.fallback_eq hn hd hs hb hr rs
    rw [strategy_linear h.linear, strategy_graph h.graph]
    simp only [Bool.false_eq_true, if_false, hroute]
    cases w.fallback .linear s rs <;> rfl

end Redrawn

theorem writes_converted (w : Workflow) (s : Step) {l r : Run} (hr : r.results = l.results)
    (a : Value) :
    (writes (w.converted s) r a).results = (writes s l a).results := by
  cases hb : s.body <;>
    simp [writes, converted, Conversion.step, hb, hr, Question.record, apply_ite Prod.fst]

theorem entryAfter_converted (now now' : Instant) (rs : Store) (a : Value) (route route' : Route) :
    (entryAfter now' (w.converted s) (w.mirror p) rs a route').bare =
      (entryAfter now s p rs a route).mirrored w := by
  cases hb : s.body <;>
    simp [entryAfter, Entry.routed, entryOf, Entry.of, Entry.bare, Entry.mirrored, converted,
      Conversion.step, hb, Step.kind, Body.kind]

theorem checkpointEntry_converted (now now' : Instant) (p q : Position) (resolved notes : Value) :
    (checkpointEntry now' (w.converted s) q resolved notes).toExcept "ExecutionEntry" =
      ((checkpointEntry now s p resolved notes).toExcept "ExecutionEntry").map
        fun e => { e with position := q, time := now'.stamp } := by
  have hentry : checkpointEntry now' (w.converted s) q resolved notes =
      ⟨{ (checkpointEntry now s p resolved notes).value with
          position := q, time := now'.stamp },
        (checkpointEntry now s p resolved notes).faults⟩ := by
    simp only [checkpointEntry, Entry.of, converted_id, converted_title, converted_kind]
    rfl
  rw [hentry]
  simp only [Reading.toExcept]
  cases (checkpointEntry now s p resolved notes).faults.isEmpty <;> rfl

end Workflow

namespace Run.Mirrors
variable {w g : Workflow} {l r : Run}

theorem isFinal (h : l.Mirrors w r) : r.isFinal = l.isFinal := by
  simp [Run.isFinal, h.status]

theorem hasRoom (h : l.Mirrors w r) (guard : Guard) : guard.hasRoom r = guard.hasRoom l := by
  simp [Guard.hasRoom, h.iterations]

theorem stepAt? (h : l.Mirrors w r) (hg : w.Redrawn g) (hn : w.Named) (hd : w.Distinct) :
    g.stepAt? r.position = (w.stepAt? l.position).map w.converted := by
  obtain ⟨i, -, hi⟩ := h.within
  rw [h.position, hi]
  exact hg.stepAt?_mirror hn hd i

theorem finish (h : l.Mirrors w r) (hg : w.Redrawn g) : (l.finish w).Mirrors w (r.finish g) where
  status := rfl
  results := h.results
  iterations := h.iterations
  trail := h.trail
  within := Workflow.endPosition_within hg.linear
  position := hg.mirror_endPosition.symm

theorem fail (h : l.Mirrors w r) (status : Status) (message : String) :
    (l.fail status message).Mirrors w (r.fail status message) where
  status := rfl
  results := by simp [Run.fail, h.results]
  iterations := h.iterations
  trail := h.trail
  within := h.within
  position := h.position

theorem write (h : l.Mirrors w r) {results results' : Store} (hr : results' = results)
    (inputs inputs' : Store) :
    ({ l with results, inputs, iterations := l.iterations + 1 } : Run).Mirrors w
      { r with results := results', inputs := inputs', iterations := r.iterations + 1 } where
  status := h.status
  results := hr
  iterations := by simp [h.iterations]
  trail := h.trail
  within := h.within
  position := h.position

theorem append (h : l.Mirrors w r) {e e' : Entry} (he : e'.bare = e.mirrored w) :
    (l.append e).Mirrors w (r.append e') where
  status := h.status
  results := h.results
  iterations := h.iterations
  trail := by simp [Run.append, h.trail, he]
  within := h.within
  position := h.position

theorem move (h : l.Mirrors w r) (hg : w.Redrawn g) {p : Position}
    (hp : ∃ i ≤ w.steps.length, p = .index (i : Nat)) :
    (l.move w p).Mirrors w (r.move g (w.mirror p)) := by
  obtain ⟨i, hi, rfl⟩ := hp
  cases hend : w.isPastEnd (.index i) with
  | true =>
    rw [Run.move_pastEnd hend, Run.move_pastEnd ((hg.isPastEnd_mirror i).trans hend)]
    exact h.finish hg
  | false =>
    rw [Run.move_inside hend, Run.move_inside ((hg.isPastEnd_mirror i).trans hend)]
    exact ⟨h.status, h.results, h.iterations, h.trail, ⟨i, hi, rfl⟩, rfl⟩

theorem stepped (h : l.Mirrors w r) (hg : w.Redrawn g) {results inputs inputs' : Store}
    {e e' : Entry} {p : Position} (he : e'.bare = e.mirrored w)
    (hp : ∃ i ≤ w.steps.length, p = .index (i : Nat)) :
    (l.stepped w results inputs e p).Mirrors w (r.stepped g results inputs' e' (w.mirror p)) :=
  ((h.write rfl inputs inputs').append he).move hg hp

end Run.Mirrors

/-- A call that goes one step on or tells that it cannot. -/
inductive Interaction where
  | process (answer : Value)
  | answerCheckpoint (resolved notes : Value)

namespace Runner

def interact (rn : Runner) (now : Instant) (r : Run) : Interaction → Run × Except Failure Bool
  | .process a => rn.process now r a
  | .answerCheckpoint resolved notes => rn.answerCheckpoint now r resolved notes

/-- The run after all calls, also after those that failed, and what each call gave; `times` tells when
each of them is made. -/
def converse (rn : Runner) :
    (times : Nat → Instant) → Run → List Interaction → Run × List (Except Failure Bool)
  | _, r, [] => (r, [])
  | times, r, c :: calls =>
    let (r', x) := rn.interact (times 0) r c
    let (r'', xs) := rn.converse (fun n => times (n + 1)) r' calls
    (r'', x :: xs)

variable {w g : Workflow} {guard : Guard} {now now' : Instant} {times times' : Nat → Instant}
  {l r : Run}

theorem currentStep?_mirrors (guard : Guard) (h : l.Mirrors w r) (hg : w.Redrawn g)
    (hn : w.Named) (hd : w.Distinct) :
    currentStep? ⟨g, guard⟩ r = (currentStep? ⟨w, guard⟩ l).map w.converted :=
  h.stepAt? hg hn hd

/-- Both sides let a step through, write alike, and find a way on or none. -/
theorem process_mirrors_step {s : Step} (hg : w.Redrawn g) (hn : w.Named) (hd : w.Distinct)
    (hc : w.EndsClosed) (h : l.Mirrors w r) (a : Value) (hl : l.isFinal = false)
    (hs : currentStep? ⟨w, guard⟩ l = some s) (hk : s.isCheckpoint = false)
    (hroom : guard.hasRoom l = true) :
    (process ⟨g, guard⟩ now' r a).2 = (process ⟨w, guard⟩ now l a).2 ∧
      (process ⟨w, guard⟩ now l a).1.Mirrors w (process ⟨g, guard⟩ now' r a).1 := by
  have hr : r.isFinal = false := h.isFinal.trans hl
  have hs' : currentStep? ⟨g, guard⟩ r = some (w.converted s) := by
    rw [currentStep?_mirrors guard h hg hn hd, hs]
    rfl
  have hk' : (w.converted s).isCheckpoint = false := by simpa using hk
  have hroom' : guard.hasRoom r = true := (h.hasRoom guard).trans hroom
  have hresults := Workflow.writes_converted w s h.results a
  rw [process_eq hl hs hk hroom, process_eq hr hs' hk' hroom', hresults]
  obtain ⟨e, e', hway, hway'⟩ | ⟨route, route', hway, hway', hplace⟩ :=
    hg.way_cases hn hd hc (Workflow.mem_of_stepAt? hs) (Workflow.writes s l a).results
  · -- No way on: the writes are made all the same, and the count stays raised.
    rw [hway, hway']
    refine ⟨rfl, ?_⟩
    rw [Workflow.writes_eq s l a, Workflow.writes_eq (w.converted s) r a]
    exact h.write hresults ..
  · rw [hway, hway']
    refine ⟨rfl, ?_⟩
    simp only [h.position, hplace]
    exact h.stepped hg (Workflow.entryAfter_converted ..) (Workflow.way_within hg.linear hway)

theorem process_mirrors (hg : w.Redrawn g) (hn : w.Named) (hd : w.Distinct) (hc : w.EndsClosed)
    (h : l.Mirrors w r) (a : Value) :
    (process ⟨g, guard⟩ now' r a).2 = (process ⟨w, guard⟩ now l a).2 ∧
      (process ⟨w, guard⟩ now l a).1.Mirrors w (process ⟨g, guard⟩ now' r a).1 := by
  have hstep := currentStep?_mirrors guard h hg hn hd
  cases hl : l.isFinal with
  | true =>
    rw [process_final hl, process_final (h.isFinal.trans hl)]
    exact ⟨rfl, h⟩
  | false =>
    have hr : r.isFinal = false := h.isFinal.trans hl
    cases hs : currentStep? ⟨w, guard⟩ l with
    | none =>
      rw [hs] at hstep
      rw [process_ended hl hs, process_ended hr hstep]
      exact ⟨rfl, h.finish hg⟩
    | some s =>
      rw [hs] at hstep
      cases hk : s.isCheckpoint with
      | true =>
        rw [process_waiting hl hs hk, process_waiting hr hstep (by simpa using hk)]
        exact ⟨rfl, h⟩
      | false =>
        cases hroom : guard.hasRoom l with
        | true => exact process_mirrors_step hg hn hd hc h a hl hs hk hroom
        | false =>
          have hroom' : guard.hasRoom r = false := (h.hasRoom guard).trans hroom
          rw [process_overrun hl hs hk hroom, process_overrun hr hstep (by simpa using hk) hroom']
          exact ⟨rfl, h.fail ..⟩

theorem answerCheckpoint_mirrors_step {s : Step} (hg : w.Redrawn g) (hn : w.Named)
    (hd : w.Distinct) (h : l.Mirrors w r) (resolved notes : Value) (hl : l.isFinal = false)
    (hs : currentStep? ⟨w, guard⟩ l = some s) (hk : s.isCheckpoint = true)
    (hroom : guard.hasRoom l = true) :
    (answerCheckpoint ⟨g, guard⟩ now' r resolved notes).2 =
        (answerCheckpoint ⟨w, guard⟩ now l resolved notes).2 ∧
      (answerCheckpoint ⟨w, guard⟩ now l resolved notes).1.Mirrors w
        (answerCheckpoint ⟨g, guard⟩ now' r resolved notes).1 := by
  have hr : r.isFinal = false := h.isFinal.trans hl
  have hs' : currentStep? ⟨g, guard⟩ r = some (w.converted s) := by
    rw [currentStep?_mirrors guard h hg hn hd, hs]
    rfl
  have hk' : (w.converted s).isCheckpoint = true := by simpa using hk
  have hroom' : guard.hasRoom r = true := (h.hasRoom guard).trans hroom
  have hmem := Workflow.mem_of_stepAt? hs
  rw [answerCheckpoint_eq hl hs hk hroom, answerCheckpoint_eq hr hs' hk' hroom',
    Workflow.checkpointEntry_converted now now' l.position]
  cases he : (Workflow.checkpointEntry now s l.position resolved notes).toExcept "ExecutionEntry" with
  | error f => exact ⟨rfl, h.write h.results ..⟩
  | ok e =>
    have hplace : e.position = l.position := (Workflow.checkpointEntry_tellsOf he).position
    have hentry : { e with position := r.position, time := now'.stamp }.bare = e.mirrored w := by
      simp [Entry.mirrored, Entry.bare, hplace, h.position]
    have hresults : r.results.record (w.converted s).title (Workflow.checkpointText resolved) =
        l.results.record s.title (Workflow.checkpointText resolved) := by
      simp [h.results]
    simp only [Except.map, hresults, hg.checkpointWay_eq hn hd hmem hk]
    cases hway : w.checkpointWay s resolved
        (l.results.record s.title (Workflow.checkpointText resolved)) with
    | error o => exact ⟨rfl, (h.write rfl ..).append hentry⟩
    | ok p => exact ⟨rfl, h.stepped hg hentry (Workflow.checkpointWay_within hg.linear hway)⟩

theorem answerCheckpoint_mirrors (hg : w.Redrawn g) (hn : w.Named) (hd : w.Distinct)
    (h : l.Mirrors w r) (resolved notes : Value) :
    (answerCheckpoint ⟨g, guard⟩ now' r resolved notes).2 =
        (answerCheckpoint ⟨w, guard⟩ now l resolved notes).2 ∧
      (answerCheckpoint ⟨w, guard⟩ now l resolved notes).1.Mirrors w
        (answerCheckpoint ⟨g, guard⟩ now' r resolved notes).1 := by
  have hstep := currentStep?_mirrors guard h hg hn hd
  cases hl : l.isFinal with
  | true =>
    rw [answerCheckpoint_final hl, answerCheckpoint_final (h.isFinal.trans hl)]
    exact ⟨rfl, h⟩
  | false =>
    have hr : r.isFinal = false := h.isFinal.trans hl
    cases hany : (currentStep? ⟨w, guard⟩ l).any (·.isCheckpoint) with
    | false =>
      have hany' : (currentStep? ⟨g, guard⟩ r).any (·.isCheckpoint) = false := by
        rw [hstep]
        cases hs : currentStep? ⟨w, guard⟩ l <;> simp_all
      rw [answerCheckpoint_refused hany, answerCheckpoint_refused hany']
      exact ⟨rfl, h⟩
    | true =>
      obtain ⟨s, hs, hk⟩ := (Option.any_eq_true _ _).1 hany
      cases hroom : guard.hasRoom l with
      | true => exact answerCheckpoint_mirrors_step hg hn hd h resolved notes hl hs hk hroom
      | false =>
        have hroom' : guard.hasRoom r = false := (h.hasRoom guard).trans hroom
        rw [hs] at hstep
        rw [answerCheckpoint_overrun hl hs hk hroom,
          answerCheckpoint_overrun hr hstep (by simpa using hk) hroom']
        exact ⟨rfl, h.fail ..⟩

theorem start_mirrors (hg : w.Redrawn g) (hn : w.Named) (hd : w.Distinct) {id : String}
    {inputs : Store} (h : start ⟨w, guard⟩ id inputs = .ok l) (id' : String) :
    ∃ r, start ⟨g, guard⟩ id' inputs = .ok r ∧ l.Mirrors w r := by
  have hopening : (opening ⟨w, guard⟩ id inputs).Mirrors w (opening ⟨g, guard⟩ id' inputs) := by
    refine ⟨rfl, rfl, rfl, rfl, ⟨0, Nat.zero_le _, ?_⟩, hg.startPosition_eq hn hd⟩
    simp [opening, Workflow.startPosition, hg.linear]
  have hstep : g.stepAt? g.startPosition = (w.stepAt? w.startPosition).map w.converted :=
    hopening.stepAt? hg hn hd
  refine ⟨_, start_eq _ _ (keyFaults_of_start h), ?_⟩
  obtain ⟨hs, rfl⟩ | ⟨s, hs, rfl⟩ := started h
  · rw [hs] at hstep
    simp only [hstep, Option.map_none, Option.isNone_none, if_true]
    exact hopening.finish hg
  · rw [hs] at hstep
    simpa [hstep] using hopening

theorem interact_mirrors (now now' : Instant) (guard : Guard) (hg : w.Redrawn g) (hn : w.Named)
    (hd : w.Distinct) (hc : w.EndsClosed) (h : l.Mirrors w r) (c : Interaction) :
    (interact ⟨g, guard⟩ now' r c).2 = (interact ⟨w, guard⟩ now l c).2 ∧
      (interact ⟨w, guard⟩ now l c).1.Mirrors w (interact ⟨g, guard⟩ now' r c).1 := by
  cases c with
  | process a => exact process_mirrors hg hn hd hc h a
  | answerCheckpoint resolved notes => exact answerCheckpoint_mirrors hg hn hd h resolved notes

theorem converse_mirrors (hg : w.Redrawn g) (hn : w.Named) (hd : w.Distinct) (hc : w.EndsClosed)
    (calls : List Interaction) (h : l.Mirrors w r) :
    (converse ⟨g, guard⟩ times' r calls).2 = (converse ⟨w, guard⟩ times l calls).2 ∧
      (converse ⟨w, guard⟩ times l calls).1.Mirrors w (converse ⟨g, guard⟩ times' r calls).1 := by
  induction calls generalizing times times' l r with
  | nil => exact ⟨rfl, h⟩
  | cons c calls ih =>
    obtain ⟨hgiven, hnext⟩ := interact_mirrors (times 0) (times' 0) guard hg hn hd hc h c
    obtain ⟨hrest, hlast⟩ := ih hnext
    refine ⟨?_, hlast⟩
    simp only [converse, hgiven, hrest]

/-- Conversion keeps runs: a sequence and its graph answer every row of calls alike, failures
included, and each call leaves their runs at the same step with the same results and trail, whenever
the calls are made on either side. -/
theorem toGraph_mirrors {id id' : String} {inputs : Store} (hn : w.Named) (hd : w.Distinct)
    (hw : w.isGraph = false) (hg : w.toGraph = .ok g) (hc : w.EndsClosed)
    (h : start ⟨w, guard⟩ id inputs = .ok l) :
    ∃ r, start ⟨g, guard⟩ id' inputs = .ok r ∧ ∀ times times' (calls : List Interaction),
      (converse ⟨g, guard⟩ times' r calls).2 = (converse ⟨w, guard⟩ times l calls).2 ∧
        (converse ⟨w, guard⟩ times l calls).1.Mirrors w (converse ⟨g, guard⟩ times' r calls).1 := by
  have hredrawn := Workflow.redrawn_of_toGraph hd hw hg
  obtain ⟨r, hr, hmirrors⟩ := start_mirrors hredrawn hn hd h id'
  exact ⟨r, hr, fun times times' calls => converse_mirrors hredrawn hn hd hc calls hmirrors⟩

theorem toGraph_mirrors_sample :
    ∃ g r, sample.workflow.toGraph = .ok g ∧ start ⟨g, sample.guard⟩ "graph" [] = .ok r ∧
      ∀ times times' (calls : List Interaction),
        (converse ⟨g, sample.guard⟩ times' r calls).2 =
            (converse sample times (sample.opening "sequence" []) calls).2 ∧
          (converse sample times (sample.opening "sequence" []) calls).1.Mirrors sample.workflow
            (converse ⟨g, sample.guard⟩ times' r calls).1 := by
  obtain ⟨g, hg⟩ : ∃ g, sample.workflow.toGraph = .ok g := ⟨_, rfl⟩
  have hclosed : sample.workflow.EndsClosed := by
    intro s d hs hb
    cases hs
    cases hb
  obtain ⟨r, hr, h⟩ := toGraph_mirrors (by decide) (by decide) rfl hg hclosed
    (rfl : sample.start "sequence" [] = .ok (sample.opening "sequence" []))
  exact ⟨g, r, hg, hr, h⟩

end Runner
end Runbook
