import Runbook.Proofs.GraphChecks
import Runbook.Proofs.FailedCalls
import Runbook.Proofs.GraphSearch

/-! The edges that the graph checks follow, and the ways that runs go. The checks know transitions
and jumps only; where these cover what decisions name as well, a run goes along edges of the checks,
so it stays inside what they reach and, without a cycle, visits no step twice. -/
namespace Runbook

/-- What a decision names: the targets of its branches, and its else target. -/
def Step.decisionTargets (s : Step) : List (Option String) :=
  match s.body with
  | .decision d => d.branches.map (·.target) ++ [d.elseTarget]
  | _ => []

def Step.transitionTargets (s : Step) : List (Option String) := s.transitions.map (·.target)

namespace Workflow
variable {w : Workflow} {s t : Step} {p : Position}

/-- The checks follow an edge to every step that one of the given targets of a step names. -/
def Charted (w : Workflow) (targets : Step → List (Option String)) : Prop :=
  ∀ s ∈ w.steps, ∀ reference ∈ targets s, ∀ t ∈ w.target? reference, t.id ∈ Check.targets w s

instance (targets : Step → List (Option String)) : Decidable (w.Charted targets) :=
  inferInstanceAs (Decidable (∀ s ∈ w.steps, ∀ reference ∈ targets s, ∀ t ∈ w.target? reference,
    t.id ∈ Check.targets w s))

theorem charted_of_danglingProblems (h : Check.danglingProblems w = []) (hd : w.Distinct) :
    w.Charted Step.transitionTargets := by
  intro s hs reference href t ht
  obtain ⟨e, he, rfl⟩ := List.mem_map.1 href
  cases hid : e.target with
  | none => simp [hid, target?] at ht
  | some id =>
    have hresolve : w.resolve? id = some t := by simpa [hid, target?] using ht
    have hne : id ≠ "" := by
      rintro rfl
      simp [resolve?, stepById?, stepByTitle?] at hresolve
    obtain ⟨u, hu, rfl⟩ :=
      Check.exists_of_mem_nodeIds (Check.mem_nodeIds_of_transition h hd hs he hid hne)
    rw [resolve?, stepById?_id hne hd hu] at hresolve
    cases hresolve
    exact Check.mem_targets_of_transition he hid hne

theorem Leads.mem_targets (hg : w.isGraph = true) (hs : s ∈ w.steps)
    (hd : w.Charted Step.decisionTargets) (he : w.Charted Step.transitionTargets)
    (h : w.Leads s p) (ht : w.stepAt? p = some t) : t.id ∈ Check.targets w s := by
  have hplace : ∀ u : Step, w.stepAt? (.node u.id) = some t → t.id = u.id := by
    intro u hu
    rw [stepAt?_node hg] at hu
    exact (stepById?_eq_some hu).2
  have hposition : ∀ u : Step, w.positionOf u = .node u.id := by simp [positionOf, hg]
  cases h with
  | jump hj hu =>
    rw [hposition] at ht
    exact hplace _ ht ▸ Check.mem_targets_of_jump hj hu
  | @branch d b u hb hmem hu =>
    rw [hposition] at ht
    refine hplace _ ht ▸ hd s hs b.target ?_ u hu
    simp only [Step.decisionTargets, hb, List.mem_append, List.mem_map]
    exact .inl ⟨b, hmem, rfl⟩
  | @otherwise d u hb hu =>
    rw [hposition] at ht
    refine hplace _ ht ▸ hd s hs d.elseTarget ?_ u hu
    simp [Step.decisionTargets, hb]
  | @transition e u _ hmem hu => exact hplace _ ht ▸ he s hs e.target (List.mem_map_of_mem hmem) u hu
  | next hlinear => simp [hg] at hlinear
  | deadEnd _ => simp [stepAt?] at ht

end Workflow

namespace Check
variable {w : Workflow} {s t : Step}

theorem start_not_unreached (h : w.start? = some s) : s.id ∉ unreachedIds w := by
  have hmem : s.id ∈ reachable (edges w) (nodeIds w) [s.id] :=
    seed_mem_reachable (List.mem_singleton_self s.id) (mem_nodeIds (Workflow.mem_of_start? h))
  simp [unreachedIds, h, hmem]

theorem target_not_unreached (hd : w.Distinct) (hs : s ∈ w.steps) (ht : t ∈ w.steps)
    (hedge : t.id ∈ targets w s) (h : s.id ∉ unreachedIds w) : t.id ∉ unreachedIds w := by
  cases hstart : w.start? with
  | none => simp [unreachedIds, hstart]
  | some start =>
    have hreached : s.id ∈ reachable (edges w) (nodeIds w) [start.id] := by
      simpa [unreachedIds, hstart, mem_nodeIds hs] using h
    have hnext := next_mem_reachable hreached (edges_id hd hs ▸ hedge) (mem_nodeIds ht)
    simp [unreachedIds, hstart, hnext]

/-- One walk of edges, of at least one edge, leads from a step to another. -/
def Before (w : Workflow) : String → String → Prop :=
  Relation.TransGen (Edge (edges w) (nodeIds w))

theorem before_irrefl (h : findCycle (edges w) (nodeIds w) = none) (id : String) :
    ¬Before w id id := acyclic_of_findCycle h id

end Check

/-- Every entry of the trail comes before the ones after it, and before the step where the run
stands, along edges of the checks. -/
structure Run.Ordered (r : Run) (w : Workflow) : Prop where
  apart : r.trail.Pairwise fun e f =>
    ∃ a b, e.stepId = some a ∧ f.stepId = some b ∧ Check.Before w a b
  here : ∀ s, w.stepAt? r.position = some s →
    ∀ e ∈ r.trail, ∃ a, e.stepId = some a ∧ Check.Before w a s.id

theorem Run.Ordered.nodup {r : Run} {w : Workflow} (h : r.Ordered w)
    (hcycle : Check.findCycle (Check.edges w) (Check.nodeIds w) = none) :
    (r.trail.map (·.stepId)).Nodup := by
  refine List.pairwise_map.2 (h.apart.imp fun ⟨a, b, ha, hb, hbefore⟩ => ?_)
  intro hsame
  rw [ha, hb, Option.some.injEq] at hsame
  exact Check.before_irrefl hcycle a (hsame ▸ hbefore)

namespace Runner
variable {rn : Runner} {now : Instant} {times : Nat → Instant} {r r' : Run}
  {x : Except Failure Bool}

/-- What a call leaves of trail and position: the trail as it was, and the run where it was or at its
end; or one step on; or, where an answer to a checkpoint fails, a trail that has grown in place. -/
inductive Onward (rn : Runner) (r : Run) : Run → Except Failure Bool → Prop where
  | rest {r' : Run} {x : Except Failure Bool} : r'.trail = r.trail →
      r'.position = r.position ∨ r'.position = rn.workflow.endPosition → Onward rn r r' x
  | step {s : Step} {results inputs : Store} {e : Entry} {p : Position} {b : Bool} :
      rn.currentStep? r = some s → e.TellsOf r.position s →
      p = rn.workflow.endPosition ∨ rn.workflow.Leads s p →
      Onward rn r (r.stepped rn.workflow results inputs e p) (.ok b)
  | stuck {r' : Run} {f : Failure} : r'.position = r.position → Onward rn r r' (.error f)

theorem process_onward {a : Value} (h : rn.process now r a = (r', x)) : Onward rn r r' x := by
  cases hr : r.isFinal with
  | true =>
    rw [process_final hr] at h
    cases h
    exact .rest rfl (.inl rfl)
  | false =>
    cases x with
    | ok b =>
      cases processed hr h with
      | ended _ => exact .rest rfl (.inr rfl)
      | waiting _ _ => exact .rest rfl (.inl rfl)
      | overrun _ _ _ => exact .rest rfl (.inl rfl)
      | advanced hs _ _ hway =>
        exact .step hs (Workflow.entryAfter_tellsOf ..) (Workflow.way_leads hway)
    | error f =>
      cases breaks_of_process h with
      | step _ _ _ => exact .rest rfl (.inl rfl)

theorem answerCheckpoint_onward {resolved notes : Value}
    (h : rn.answerCheckpoint now r resolved notes = (r', x)) : Onward rn r r' x := by
  cases hr : r.isFinal with
  | true =>
    rw [answerCheckpoint_final hr] at h
    cases h
    exact .rest rfl (.inl rfl)
  | false =>
    cases x with
    | ok b =>
      cases answered hr h with
      | refused _ => exact .rest rfl (.inl rfl)
      | overrun _ _ _ => exact .rest rfl (.inl rfl)
      | advanced hs _ _ he hway =>
        exact .step hs (Workflow.checkpointEntry_tellsOf he) (Workflow.checkpointWay_leads hway)
    | error f =>
      cases breaks_of_answerCheckpoint h with
      | unread _ _ _ => exact .rest rfl (.inl rfl)
      | checkpoint _ _ _ _ => exact .stuck rfl

theorem interact_onward {c : Interaction} (h : rn.interact now r c = (r', x)) : Onward rn r r' x := by
  cases c with
  | process a => exact process_onward h
  | answerCheckpoint resolved notes => exact answerCheckpoint_onward h

theorem stepAt?_stepped {s t : Step} {results inputs : Store} {e : Entry} {p : Position}
    (hp : p = rn.workflow.endPosition ∨ rn.workflow.Leads s p)
    (ht : rn.workflow.stepAt? (r.stepped rn.workflow results inputs e p).position = some t) :
    rn.workflow.Leads s p ∧ rn.workflow.stepAt? p = some t := by
  rw [Run.stepped_position] at ht
  split at ht
  · simp [Workflow.stepAt?_endPosition] at ht
  · obtain rfl | hleads := hp
    · simp [Workflow.stepAt?_endPosition] at ht
    · exact ⟨hleads, ht⟩

section
variable (hg : rn.workflow.isGraph = true) (hd : rn.workflow.Distinct)
  (hdecisions : rn.workflow.Charted Step.decisionTargets)
  (htransitions : rn.workflow.Charted Step.transitionTargets)
include hg hd hdecisions htransitions

theorem interact_reached {c : Interaction} (h : rn.interact now r c = (r', x))
    (hr : ∀ s, rn.currentStep? r = some s → s.id ∉ Check.unreachedIds rn.workflow) :
    ∀ t, rn.currentStep? r' = some t → t.id ∉ Check.unreachedIds rn.workflow := by
  intro t ht
  cases interact_onward h with
  | rest _ hp =>
    obtain hp | hp := hp
    · exact hr t (by rwa [currentStep?, ← hp])
    · simp [currentStep?, hp, Workflow.stepAt?_endPosition] at ht
  | stuck hp => exact hr t (by rwa [currentStep?, ← hp])
  | step hs _ hp =>
    obtain ⟨hleads, ht⟩ := stepAt?_stepped hp ht
    have hmem := Workflow.mem_of_stepAt? hs
    exact Check.target_not_unreached hd hmem (Workflow.mem_of_stepAt? ht)
      (hleads.mem_targets hg hmem hdecisions htransitions ht) (hr _ hs)

theorem interact_ordered {c : Interaction} {b : Bool} (h : rn.interact now r c = (r', .ok b))
    (hr : r.Ordered rn.workflow) : r'.Ordered rn.workflow := by
  cases interact_onward h with
  | rest htrail hp =>
    refine ⟨htrail ▸ hr.apart, fun t ht => ?_⟩
    rw [htrail]
    obtain hp | hp := hp
    · exact hr.here t (hp ▸ ht)
    · simp [hp, Workflow.stepAt?_endPosition] at ht
  | @step s _ _ e p _ hs he hp =>
    refine ⟨?_, fun t ht f hf => ?_⟩
    · rw [Run.stepped_trail, List.pairwise_append]
      refine ⟨hr.apart, by simp, fun f hf e' he' => ?_⟩
      obtain ⟨a, ha, hbefore⟩ := hr.here s hs f hf
      exact ⟨a, s.id, ha, List.mem_singleton.1 he' ▸ he.stepId, hbefore⟩
    · obtain ⟨hleads, ht⟩ := stepAt?_stepped hp ht
      have hmem := Workflow.mem_of_stepAt? hs
      have htarget := hleads.mem_targets hg hmem hdecisions htransitions ht
      have hedge : Check.Edge (Check.edges rn.workflow) (Check.nodeIds rn.workflow) s.id t.id :=
        ⟨Check.mem_nodeIds hmem, Check.edges_id hd hmem ▸ htarget,
          Check.mem_nodeIds (Workflow.mem_of_stepAt? ht)⟩
      rw [Run.stepped_trail, List.mem_append, List.mem_singleton] at hf
      obtain hf | rfl := hf
      · obtain ⟨a, ha, hbefore⟩ := hr.here s hs f hf
        exact ⟨a, ha, hbefore.tail hedge⟩
      · exact ⟨s.id, he.stepId, .single hedge⟩

theorem converse_reached (calls : List Interaction)
    (hr : ∀ s, rn.currentStep? r = some s → s.id ∉ Check.unreachedIds rn.workflow) :
    ∀ s, rn.currentStep? (rn.converse times r calls).1 = some s →
      s.id ∉ Check.unreachedIds rn.workflow := by
  induction calls generalizing times r with
  | nil => exact hr
  | cons c calls ih => exact ih (interact_reached hg hd hdecisions htransitions rfl hr)

theorem converse_ordered (calls : List Interaction)
    (hreturn : ∀ x ∈ (rn.converse times r calls).2, ∃ b, x = .ok b) (hr : r.Ordered rn.workflow) :
    (rn.converse times r calls).1.Ordered rn.workflow := by
  induction calls generalizing times r with
  | nil => exact hr
  | cons c calls ih =>
    obtain ⟨b, hb⟩ := hreturn (rn.interact (times 0) r c).2 (.head _)
    exact ih (fun x hx => hreturn x (.tail _ hx))
      (interact_ordered hg hd hdecisions htransitions (Prod.ext rfl hb) hr)

end

/-- Where the edges of the checks cover what decisions and transitions name, no run stands at a step
that is reported as out of reach. -/
theorem current_not_unreached {id : String} {inputs : Store} {s : Step}
    (hg : rn.workflow.isGraph = true) (hd : rn.workflow.Distinct)
    (hdecisions : rn.workflow.Charted Step.decisionTargets)
    (htransitions : rn.workflow.Charted Step.transitionTargets)
    (h : rn.start id inputs = .ok r) (calls : List Interaction)
    (hs : rn.currentStep? (rn.converse times r calls).1 = some s) :
    s.id ∉ Check.unreachedIds rn.workflow := by
  refine converse_reached hg hd hdecisions htransitions calls ?_ s hs
  intro t ht
  obtain ⟨-, rfl⟩ | ⟨-, -, rfl⟩ := started h
  · simp [currentStep?, Run.finish, Workflow.stepAt?_endPosition] at ht
  · cases hstart : rn.workflow.start? with
    | none => simp [currentStep?, opening, Workflow.startPosition, hg, hstart, Workflow.stepAt?] at ht
    | some start =>
      have hid : t.id = start.id := by
        simp only [currentStep?, opening, Workflow.startPosition, hg, hstart, if_true,
          Workflow.stepAt?_node hg] at ht
        exact (Workflow.stepById?_eq_some ht).2
      exact hid ▸ Check.start_not_unreached hstart

def charted : Runner where
  workflow := ⟨"charted", "Charted", true, none,
    [⟨"choose", "Choose", none, [], [⟨some "low", some "level == 'low'", none⟩,
        ⟨some "high", none, none⟩], .decision ⟨false, [⟨some "level == ''", some "High"⟩], none⟩, []⟩,
      ⟨"high", "High", none, [], [], .action ⟨none, []⟩, []⟩,
      ⟨"low", "Low", none, [], [], .action ⟨none, []⟩, []⟩]⟩
  guard := ⟨10, .whole 5⟩

theorem current_not_unreached_sample :
    charted.workflow.Distinct ∧ charted.workflow.Charted Step.decisionTargets ∧
      charted.workflow.Charted Step.transitionTargets ∧
      charted.currentStep?
        (charted.converse (fun _ => .leapDay) (charted.opening "run" []) [.process .null]).1 =
          some charted.workflow.steps[1] ∧
      charted.workflow.steps[1].id ∉ Check.unreachedIds charted.workflow := by
  have hd : charted.workflow.Distinct := by decide +kernel
  have hdecisions : charted.workflow.Charted Step.decisionTargets := by decide +kernel
  have htransitions : charted.workflow.Charted Step.transitionTargets := by decide +kernel
  have hstart : charted.start "run" [] = .ok (charted.opening "run" []) := rfl
  have hs : charted.currentStep?
      (charted.converse (fun _ => .leapDay) (charted.opening "run" []) [.process .null]).1 =
        some charted.workflow.steps[1] := rfl
  exact ⟨hd, hdecisions, htransitions, hs,
    current_not_unreached rfl hd hdecisions htransitions hstart [.process .null] hs⟩

def branching : Runner where
  workflow := ⟨"branching", "", true, some "d",
    [⟨"d", "D", none, [], [⟨some "low", none, none⟩],
        .decision ⟨false, [⟨some "level == ''", some "high"⟩], none⟩, []⟩,
      ⟨"high", "High", none, [], [], .action ⟨none, []⟩, []⟩,
      ⟨"low", "Low", none, [], [], .action ⟨none, []⟩, []⟩]⟩
  guard := ⟨10, .whole 5⟩

/-- A run can stand at a step that is reported as out of reach, as no edge follows a branch. -/
theorem current_unreached_by_branch :
    ¬∀ (rn : Runner) (id : String) (r : Run) (times : Nat → Instant) (calls : List Interaction)
        (s : Step),
      rn.workflow.isGraph = true → rn.workflow.Distinct → rn.start id [] = .ok r →
      rn.currentStep? (rn.converse times r calls).1 = some s →
      s.id ∉ Check.unreachedIds rn.workflow := by
  intro h
  have hd : branching.workflow.Distinct := by decide +kernel
  have hstart : branching.start "run" [] = .ok (branching.opening "run" []) := rfl
  have hs : branching.currentStep?
      (branching.converse (fun _ => .leapDay) (branching.opening "run" []) [.process .null]).1 =
        some branching.workflow.steps[1] := rfl
  have hreported : branching.workflow.steps[1].id ∈ Check.unreachedIds branching.workflow := by
    decide +kernel
  exact h branching "run" _ (fun _ => .leapDay) [.process .null] _ rfl hd hstart hs hreported

/-- Where a check for cycles finds no problems and the edges cover what decisions name, no calls that
return ever process a step twice. -/
theorem trail_nodup_of_problems {id : String} {inputs : Store} {l : Limits}
    (hg : rn.workflow.isGraph = true) (hproblems : rn.workflow.problems false l = .ok [])
    (hdecisions : rn.workflow.Charted Step.decisionTargets) (h : rn.start id inputs = .ok r)
    (calls : List Interaction) (hreturn : ∀ x ∈ (rn.converse times r calls).2, ∃ b, x = .ok b) :
    ((rn.converse times r calls).1.trail.map (·.stepId)).Nodup := by
  have hd := Workflow.distinct_of_problems hproblems
  obtain ⟨hdangling, hcycle⟩ := Check.acyclic_of_graphProblems
    ((Workflow.problems_eq_nil hproblems).2.2 hg)
  have hopening : r.Ordered rn.workflow := by
    obtain ⟨-, rfl⟩ | ⟨-, -, rfl⟩ := started h <;> constructor <;> simp [opening, Run.finish]
  exact (converse_ordered hg hd hdecisions (Workflow.charted_of_danglingProblems hdangling hd) calls
    hreturn hopening).nodup hcycle

theorem trail_nodup_of_problems_sample :
    charted.workflow.problems false .standard = .ok [] ∧
      charted.workflow.Charted Step.decisionTargets ∧
      ((charted.converse (fun _ => .leapDay) (charted.opening "run" [])
        [.process .null, .process .null]).1.trail.map (·.stepId)).Nodup := by
  have hproblems : charted.workflow.problems false .standard = .ok [] := by decide +kernel
  have hdecisions : charted.workflow.Charted Step.decisionTargets := by decide +kernel
  have hstart : charted.start "run" [] = .ok (charted.opening "run" []) := rfl
  have hgiven : (charted.converse (fun _ => .leapDay) (charted.opening "run" [])
      [.process .null, .process .null]).2 = [.ok true, .ok true] := by decide +kernel
  refine ⟨hproblems, hdecisions, trail_nodup_of_problems rfl hproblems hdecisions hstart _ ?_⟩
  simp [hgiven]

def looping : Runner where
  workflow := ⟨"looping", "", true, none,
    [⟨"a", "A", none, [], [⟨some "b", none, none⟩], .action ⟨none, []⟩, []⟩,
      ⟨"b", "B", none, [], [⟨some "c", none, none⟩],
        .decision ⟨false, [⟨some "again == ''", some "a"⟩], none⟩, []⟩,
      ⟨"c", "C", none, [], [], .action ⟨none, []⟩, []⟩]⟩
  guard := ⟨10, .whole 5⟩

/-- A run can go round a cycle that a check for cycles passes, as no edge follows a branch. -/
theorem trail_repeats_by_branch :
    ¬∀ (rn : Runner) (l : Limits) (id : String) (r : Run) (times : Nat → Instant)
        (calls : List Interaction),
      rn.workflow.isGraph = true → rn.workflow.problems false l = .ok [] →
      rn.start id [] = .ok r → ((rn.converse times r calls).1.trail.map (·.stepId)).Nodup := by
  intro h
  have hproblems : looping.workflow.problems false .standard = .ok [] := by decide +kernel
  have hstart : looping.start "run" [] = .ok (looping.opening "run" []) := rfl
  have hnodup := h looping .standard "run" _ (fun _ => .leapDay)
    [.process .null, .process .null, .process .null] rfl hproblems hstart
  have htrail : (looping.converse (fun _ => .leapDay) (looping.opening "run" [])
      [.process .null, .process .null, .process .null]).1.trail.map (·.stepId) =
      [some "a", some "b", some "a"] := by decide +kernel
  rw [htrail] at hnodup
  exact absurd hnodup (by decide)

end Runner
end Runbook
